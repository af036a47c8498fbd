import PcmWrapper.DatabaseDirectory
import PcmWrapper.JsonDatabases

/-!
# What a directory leaves in the reader

`loadFromDirectory` stops at the first entry that makes it throw, and what it has merged by then
stays. `reachedRecords` are the records it gets to, and `hwCounters_after_loadFromDirectory` says
that the map holds exactly these, however the loads end and whatever the handler does.

`returned_loadFromDirectory_iff` says for which directories nothing is thrown, without assuming
anything of the files: every regular file has four characters in its name, and those that are named
as databases hold the texts of databases. `readdir` promises no order, so it matters that this and
the names the models get depend on the entries alone (`loadFromDirectory_perm`).
-/

set_option autoImplicit false
set_option relaxedAutoImplicit false

namespace PcmWrapper

open Library

variable (handler : FatalHandler) (env : Environment) {enumValue : SupportedCPUModel → ℤ}
  (directory : String)

/-! ### The records that are reached -/

/-- An entry is gone past: its name is long enough, and the file can be loaded if it is to be. -/
def Dirent.Passes (env : Environment) (enumValue : SupportedCPUModel → ℤ) (directory : String)
    (ent : Dirent) : Prop :=
  ent.IsLongEnough ∧
    ∀ load ∈ (expectedLoad enumValue directory ent).toList, Loadable env load.filePath

instance (env : Environment) (enumValue : SupportedCPUModel → ℤ) (directory : String) :
    DecidablePred (Dirent.Passes env enumValue directory) := fun ent ↦
  inferInstanceAs (Decidable (ent.IsLongEnough ∧
    ∀ load ∈ (expectedLoad enumValue directory ent).toList, Loadable env load.filePath))

/-- The records an entry gets to: none when its name is too short, and of a file that is loaded
those in front of a failure. -/
def entryRecords (env : Environment) (enumValue : SupportedCPUModel → ℤ) (directory : String)
    (ent : Dirent) : List (HwEvent × ℤ) :=
  if ent.IsLongEnough then
    (expectedLoad enumValue directory ent).toList.flatMap fun load ↦
      (precedingRecords env load.filePath).map (·, load.cpuModel)
  else []

/-- The records a directory gets to: those of its entries up to the first that is not passed. -/
def reachedRecords (env : Environment) (enumValue : SupportedCPUModel → ℤ) (directory : String) :
    List Dirent → List (HwEvent × ℤ)
  | [] => []
  | ent :: entries =>
    entryRecords env enumValue directory ent ++
      if ent.Passes env enumValue directory then
        reachedRecords env enumValue directory entries
      else []

/-! ### One entry -/

/-- An entry that is to be loaded makes one call of `loadCounters`, and no other entry makes any. -/
theorem processEntry_cases (henum : ∀ cpuModel, 0 ≤ enumValue cpuModel) {ent : Dirent}
    (hlong : ent.IsLongEnough) :
    (expectedLoad enumValue directory ent = none ∧
      processEntry (loadCounterFunctor (loadCounters handler env) enumValue directory) ent =
        pure ()) ∨
    ∃ load, expectedLoad enumValue directory ent = some load ∧
      processEntry (loadCounterFunctor (loadCounters handler env) enumValue directory) ent =
        loadCounters handler env load.filePath load.cpuModel := by
  rw [processEntry_eq henum _ hlong]
  cases hload : expectedLoad enumValue directory ent with
  | none => exact Or.inl ⟨rfl, rfl⟩
  | some load => exact Or.inr ⟨load, rfl, bind_pure _⟩

/-- An entry whose name is too short throws. -/
theorem run_processEntry_of_short {ent : Dirent} (hshort : ¬ ent.IsLongEnough)
    (load : String → ℤ → Program HwCounterJsonReader Unit)
    (m : Machine Event HwCounterJsonReader) :
    (processEntry (loadCounterFunctor load enumValue directory) ent).run m =
      .error (.thrown (.outOfRange "basic_string::substr")) m := by
  obtain ⟨hregular, hname⟩ := Classical.not_imp.mp hshort
  rw [processEntry, isFile, if_pos (decide_eq_true hregular), processFile,
    isJson_of_lt_four (not_le.mp hname)]
  rfl

/-- The loop body returns exactly for an entry that passes. Assumes: the CPU models of PCM have no
negative numbers. -/
theorem returned_processEntry_iff (henum : ∀ cpuModel, 0 ≤ enumValue cpuModel) {ent : Dirent}
    {m : Machine Event HwCounterJsonReader} :
    (∃ m', (processEntry (loadCounterFunctor (loadCounters handler env) enumValue directory)
      ent).run m = .ok () m') ↔ ent.Passes env enumValue directory := by
  by_cases hlong : ent.IsLongEnough
  · rcases processEntry_cases handler env directory henum hlong with
      ⟨hnone, hbody⟩ | ⟨load, hsome, hbody⟩
    · rw [hbody]
      exact iff_of_true ⟨m, rfl⟩ ⟨hlong, by rw [hnone]; nofun⟩
    · rw [hbody, Dirent.Passes, hsome]
      simp only [run_loadCounters_eq_ok, Option.toList_some, List.mem_singleton, forall_eq]
      exact ⟨fun ⟨_, hloadable, _⟩ ↦ ⟨hlong, hloadable⟩, fun ⟨_, hloadable⟩ ↦ ⟨_, hloadable, rfl⟩⟩
  · refine iff_of_false ?_ fun hpasses ↦ hlong hpasses.1
    rintro ⟨m', hrun⟩
    rw [run_processEntry_of_short directory hlong] at hrun
    cases hrun

/-- The loop body merges the records of its entry, however it ends. Assumes: the CPU models of PCM
have no negative numbers. -/
theorem hwCounters_after_processEntry (henum : ∀ cpuModel, 0 ≤ enumValue cpuModel) (ent : Dirent)
    (m : Machine Event HwCounterJsonReader) :
    (after ((processEntry (loadCounterFunctor (loadCounters handler env) enumValue directory)
      ent).run m)).state.hwCounters = (entryRecords env enumValue directory ent).foldl
        (upsert mergeKey mergeCreate mergeExtend) m.state.hwCounters := by
  rw [entryRecords]
  by_cases hlong : ent.IsLongEnough
  · rw [if_pos hlong]
    rcases processEntry_cases handler env directory henum hlong with
      ⟨hnone, hbody⟩ | ⟨load, hsome, hbody⟩
    · rw [hbody, hnone]
      rfl
    · rw [hbody, hsome, state_after_loadCounters, HwCounterJsonReader.hwCounters_addCounters,
        Option.toList_some, List.flatMap_singleton]
  · rw [if_neg hlong, run_processEntry_of_short directory hlong, after_error]
    rfl

/-! ### The whole directory -/

/-- The loop returns exactly when every entry passes. Assumes: the CPU models of PCM have no
negative numbers. -/
theorem returned_processEntries_iff (henum : ∀ cpuModel, 0 ≤ enumValue cpuModel)
    {entries : List Dirent} {m : Machine Event HwCounterJsonReader} :
    (∃ m', (processEntries (loadCounterFunctor (loadCounters handler env) enumValue directory)
      entries).run m = .ok () m') ↔ ∀ ent ∈ entries, ent.Passes env enumValue directory := by
  induction entries generalizing m with
  | nil => exact iff_of_true ⟨m, rfl⟩ nofun
  | cons ent entries ih =>
    rw [processEntries, List.forall_mem_cons,
      ← returned_processEntry_iff handler env directory henum (m := m)]
    simp only [run_bind_eq_ok]
    constructor
    · rintro ⟨m', _, m₁, hent, hentries⟩
      exact ⟨⟨m₁, hent⟩, ih.mp ⟨m', hentries⟩⟩
    · rintro ⟨⟨m₁, hent⟩, hentries⟩
      obtain ⟨m', hrun⟩ := (ih (m := m₁)).mpr hentries
      exact ⟨m', (), m₁, hent, hrun⟩

/-- The map holds what it held and the records the directory got to, each merged in its turn,
however the loads end. Assumes: the CPU models of PCM have no negative numbers. -/
theorem hwCounters_after_loadFromDirectory (henum : ∀ cpuModel, 0 ≤ enumValue cpuModel)
    (listing : Option (List Dirent)) (m : Machine Event HwCounterJsonReader) :
    (after ((loadFromDirectory handler env enumValue directory listing).run m)).state.hwCounters =
      (reachedRecords env enumValue directory (listing.getD [])).foldl
        (upsert mergeKey mergeCreate mergeExtend) m.state.hwCounters := by
  cases listing with
  | none => rfl
  | some entries =>
    rw [loadFromDirectory, loadFromDirectoryWith, Option.getD_some]
    induction entries generalizing m with
    | nil => rfl
    | cons ent entries ih =>
      have hstate := hwCounters_after_processEntry handler env directory henum ent m
      have hpasses : (∃ m', (processEntry (loadCounterFunctor (loadCounters handler env) enumValue
          directory) ent).run m = .ok () m') ↔ ent.Passes env enumValue directory :=
        returned_processEntry_iff handler env directory henum
      rw [processEntries, reachedRecords, List.foldl_append, ← hstate]
      cases hrun : (processEntry (loadCounterFunctor (loadCounters handler env) enumValue directory)
          ent).run m with
      | ok _ m₁ =>
        rw [run_bind_of_ok hrun, ih, if_pos (hpasses.mp ⟨m₁, hrun⟩)]
        rfl
      | error cause m₁ =>
        have hnot : ¬ ent.Passes env enumValue directory := fun h ↦ by
          obtain ⟨m', hok⟩ := hpasses.mpr h
          rw [hrun] at hok
          cases hok
        rw [run_bind_of_error hrun, if_neg hnot]
        rfl

/-- PCM has no negative numbers for its CPU models. -/
theorem pcmNumber_nonneg (cpuModel : SupportedCPUModel) : 0 ≤ pcmNumber cpuModel := by
  cases cpuModel <;> decide

/-- A directory is gone through to its end exactly when every entry passes. Assumes: the CPU models
of PCM have no negative numbers. -/
theorem exists_run_loadFromDirectory_iff (henum : ∀ cpuModel, 0 ≤ enumValue cpuModel)
    {listing : Option (List Dirent)} {m : Machine Event HwCounterJsonReader} :
    (∃ m', (loadFromDirectory handler env enumValue directory listing).run m = .ok () m') ↔
      ∀ ent ∈ listing.getD [], ent.Passes env enumValue directory := by
  cases listing with
  | none => exact iff_of_true ⟨m, rfl⟩ nofun
  | some entries => exact returned_processEntries_iff handler env directory henum

/-- An entry passes when its name is long enough, and what is named as a database has the text of
one. -/
theorem passes_ofFiles_iff {readFile : String → Option String} {ent : Dirent} :
    ent.Passes (.ofFiles readFile) enumValue directory ↔
      (ent.type = .regular → 4 ≤ ent.name.length) ∧
        ∀ load, expectedLoad enumValue directory ent = some load →
          ∃ text counters, readFile load.filePath = some text ∧ IsDatabase text counters := by
  refine and_congr_right fun _ ↦ forall_congr' fun load ↦ ?_
  rw [Option.mem_toList]
  refine imp_congr_right fun _ ↦ ⟨fun hloadable ↦ ?_, fun ⟨text, counters, h⟩ ↦ ?_⟩
  · obtain ⟨text, hread, hdatabase⟩ := loadable_ofFiles.mp ⟨hloadable, rfl⟩
    exact ⟨text, _, hread, hdatabase⟩
  · exact (loadable_ofFiles.mpr ⟨text, h⟩).1

/-- Loading from a directory returns exactly when every regular file has a name of at least four
characters, and every file that is named as the database of a CPU model has the text of a database.
Assumes: the CPU models of PCM have no negative numbers. -/
theorem returned_loadFromDirectory_iff (readFile : String → Option String)
    (henum : ∀ cpuModel, 0 ≤ enumValue cpuModel) (listing : Option (List Dirent))
    (m : Machine Event HwCounterJsonReader) :
    returned ((loadFromDirectory handler (.ofFiles readFile) enumValue directory listing).run m) =
        true ↔
      ∀ ent ∈ listing.getD [], (ent.type = .regular → 4 ≤ ent.name.length) ∧
        ∀ load, expectedLoad enumValue directory ent = some load →
          ∃ text counters, readFile load.filePath = some text ∧ IsDatabase text counters := by
  simp only [← passes_ofFiles_iff]
  rw [← exists_run_loadFromDirectory_iff handler _ directory henum (m := m)]
  constructor
  · intro hreturned
    exact ⟨_, eq_ok_of_returned hreturned⟩
  · rintro ⟨m', hrun⟩
    rw [hrun, returned]

/-- A database with one record. -/
def smallExcerpt : ExcerptFile where
  filePath := "db/haswell_core_v26.json"
  records := [[(c_EventCode, "0xD1"), (c_EventName, "L1_MISS"), (c_UMask, "0x08")]]

/-- A directory with a database of one record loads, so that the file has the text of a database. -/
theorem returned_loadFromDirectory_small :
    ∃ counters, IsDatabase smallExcerpt.text counters := by
  have hdirectory := (returned_loadFromDirectory_iff defaultFatalHandler "db"
    (Environment.ofExcerpts [smallExcerpt]).readFile pcmNumber_nonneg
    (some [⟨.regular, "haswell_core_v26.json".toList, by decide, by decide⟩])
    (.fresh .empty)).mp (by decide +kernel)
  obtain ⟨text, counters, hread, hdatabase⟩ := (hdirectory _ List.mem_cons_self).2
    ⟨smallExcerpt.filePath, 60⟩ (by decide +kernel)
  have htext : (Environment.ofExcerpts [smallExcerpt]).readFile smallExcerpt.filePath =
      some smallExcerpt.text := by decide +kernel
  rw [Option.some.inj (htext.symm.trans hread)]
  exact ⟨counters, hdatabase⟩

/-- A directory that loads makes the expected loads, which all succeed. Assumes: the CPU models of
PCM have no negative numbers. -/
theorem run_loadAll_of_loadFromDirectory (henum : ∀ cpuModel, 0 ≤ enumValue cpuModel)
    {listing : Option (List Dirent)} {m final : Machine Event HwCounterJsonReader}
    (h : (loadFromDirectory handler env enumValue directory listing).run m = .ok () final) :
    (loadAll handler env (expectedLoads enumValue directory listing)).run m = .ok () final := by
  cases listing with
  | none => exact h
  | some entries =>
    have hlong : ∀ ent ∈ entries, ent.IsLongEnough := fun ent hent ↦
      ((returned_processEntries_iff handler env directory henum).mp ⟨final, h⟩ ent hent).1
    rw [← performLoads_loadCounters, ← processEntries_eq henum _ hlong]
    exact h

/-- Loads that succeed leave the trace as it is. -/
theorem trace_of_run_loadAll {loads : List Load} {m final : Machine Event HwCounterJsonReader}
    (h : (loadAll handler env loads).run m = .ok () final) : final.trace = m.trace := by
  induction loads generalizing m with
  | nil =>
    cases h
    rfl
  | cons load loads ih =>
    obtain ⟨_, m', hload, hrest⟩ := run_bind_eq_ok.mp h
    obtain ⟨-, rfl⟩ := run_loadCounters_eq_ok.mp hload
    have htrace := ih hrest
    exact htrace

/-- Two listings of the same entries load, or both throw; and if they load, every model gets the
same names, those in the databases named after it. Assumes: the CPU models of PCM have no negative
numbers. -/
theorem loadFromDirectory_perm (henum : ∀ cpuModel, 0 ≤ enumValue cpuModel)
    {entries otherEntries : List Dirent} (hperm : entries.Perm otherEntries) :
    let run entries :=
      (loadFromDirectory handler env enumValue directory (some entries)).run (.fresh .empty)
    returned (run entries) = returned (run otherEntries) ∧
      (returned (run entries) = true → ∀ cpuModel name,
        (name ∈ ((after (run entries)).state.getCounters cpuModel).map HwEvent.name ↔
          NamedFor env (expectedLoads enumValue directory (some entries)) cpuModel name) ∧
        (name ∈ ((after (run otherEntries)).state.getCounters cpuModel).map HwEvent.name ↔
          NamedFor env (expectedLoads enumValue directory (some entries)) cpuModel name)) := by
  intro run
  have hreturned : ∀ entries, returned (run entries) = true ↔
      ∀ ent ∈ entries, ent.Passes env enumValue directory := by
    intro entries
    have hentries : (∃ m', run entries = .ok () m') ↔
        ∀ ent ∈ entries, ent.Passes env enumValue directory :=
      exists_run_loadFromDirectory_iff handler env directory henum
    exact ⟨fun h ↦ hentries.mp ⟨_, eq_ok_of_returned h⟩, fun h ↦ by
      obtain ⟨m', hrun⟩ := hentries.mpr h
      rw [hrun, returned]⟩
  have hsame : returned (run entries) = returned (run otherEntries) := by
    rw [Bool.eq_iff_iff, hreturned, hreturned]
    exact forall_congr' fun ent ↦ imp_congr_left hperm.mem_iff
  have hnames : ∀ entries, returned (run entries) = true → ∀ cpuModel name,
      name ∈ ((after (run entries)).state.getCounters cpuModel).map HwEvent.name ↔
        NamedFor env (expectedLoads enumValue directory (some entries)) cpuModel name :=
    fun entries h cpuModel name ↦ mem_names_iff
      ⟨_, run_loadAll_of_loadFromDirectory handler env directory henum (eq_ok_of_returned h)⟩
  refine ⟨hsame, fun h cpuModel name ↦ ⟨hnames entries h cpuModel name, ?_⟩⟩
  rw [hnames otherEntries (hsame ▸ h) cpuModel name]
  -- the loads of the two listings are the same but for their order
  have hloads : ∀ load, load ∈ expectedLoads enumValue directory (some otherEntries) ↔
      load ∈ expectedLoads enumValue directory (some entries) := fun load ↦
    (hperm.symm.filterMap _).mem_iff
  exact exists_congr fun load ↦ and_congr_left fun _ ↦ hloads load

/-- Two of the shipped databases load in the order of another listing too. -/
theorem loadFromDirectory_reverse :
    returned ((loadFromDirectory defaultFatalHandler excerptFiles pcmNumber "db"
      (some databaseListing.reverse)).run (.fresh .empty)) = true := by
  have hperm := loadFromDirectory_perm defaultFatalHandler excerptFiles "db" pcmNumber_nonneg
    (List.reverse_perm databaseListing).symm
  exact hperm.1.symm.trans (by decide +kernel)

end PcmWrapper
