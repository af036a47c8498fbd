import PcmWrapper.CounterRecorder
import PcmWrapper.DatabaseLoads

/-!
# Loading a directory

`loadFromDirectory` goes through the entries of a directory and calls `loadCounters` for those that
are databases of a known CPU model: regular files whose name ends in `json`, with the name of the
model in front of the first underscore. The filter cuts the last four characters off a name without
asking whether there are four, and for a shorter name `substr` throws.

A name is the list of the characters of a `std::string`, one for each byte. What PCM numbers its CPU
models with is a parameter, and so is the function that loads one file: `performLoads` gives it the
expected calls one after the other, and `loadFromDirectory_exact_iff` says for which directories
loading from the directory is that.
-/

set_option autoImplicit false
set_option relaxedAutoImplicit false

namespace PcmWrapper

open Library

/-! ### Directories and CPU models -/

/-- The types of a directory entry, `d_type`. -/
inductive EntryType
  | unknown
  | fifo
  | characterDevice
  | directory
  | blockDevice
  | regular
  | symbolicLink
  | socket
  deriving DecidableEq

/-- `dirent`. No name is so long that an `int` could not count its characters. -/
structure Dirent where
  type : EntryType
  name : List Char
  name_ne_nil : name ≠ []
  length_lt : name.length < 2 ^ 31

/-- `PCM::SupportedCPUModels`, as far as there are databases for it. -/
inductive SupportedCPUModel
  | broadwell
  | bdxDe
  | bdx
  | haswell
  | haswellx
  | ivyBridge
  | ivytown
  | skl
  | skx
  deriving DecidableEq

/-- `c_cpuModels`. -/
def c_cpuModels : List (String × SupportedCPUModel) :=
  [("broadwell", .broadwell), ("broadwellde", .bdxDe), ("broadwellx", .bdx), ("haswell", .haswell),
    ("haswellx", .haswellx), ("ivybridge", .ivyBridge), ("ivytown", .ivytown), ("skylake", .skl),
    ("skylakex", .skx)]

/-! ### Strings -/

/-- `std::string::npos`. -/
def npos : ℕ := 2 ^ 64 - 1

/-- `std::string::find` of a character. -/
def find (text : List Char) (c : Char) : ℕ :=
  if text.findIdx (· == c) < text.length then text.findIdx (· == c) else npos

/-- `std::string::substr` from a position on, which may be the end but nothing behind it. The text
of its exception, which gives the position and the size, is up to the library. -/
def substr (text : List Char) (pos : ℕ) : Except (Interrupt Exception) (List Char) :=
  if pos ≤ text.length then .ok (text.drop pos)
  else .error (.thrown (.outOfRange "basic_string::substr"))

/-- A `std::size_t` converted to `int`. -/
def intOfSizeT (n : ℕ) : ℤ := Int.bmod n (2 ^ 32)

/-- An `int` converted to `std::size_t`. -/
def sizeTOfInt (n : ℤ) : ℕ := (n % 2 ^ 64).toNat

/-! ### Loading from a directory -/

/-- `isFile`. -/
def isFile (ent : Dirent) : Bool := ent.type = .regular

/-- `isJson`. The subtraction is one of `std::size_t`. -/
def isJson (filename : List Char) : Except (Interrupt Exception) Bool := do
  let suffix ← substr filename (sizeT (filename.length + (2 ^ 64 - 4)))
  return suffix = "json".toList

/-- `getCPUModel`, with the numbers PCM gives its CPU models. -/
def getCPUModel (enumValue : SupportedCPUModel → ℤ) (filename : List Char) : ℤ :=
  let pos := intOfSizeT (find filename '_')
  if sizeTOfInt pos = npos then -1
  else match c_cpuModels.lookup (String.ofList (filename.take (sizeTOfInt pos))) with
    | some cpuModel => enumValue cpuModel
    | none => -1

variable {σ : Type}

/-- `loadCounterFunctor`, with the function that loads a file left open. -/
def loadCounterFunctor (load : String → ℤ → Program σ Unit) (enumValue : SupportedCPUModel → ℤ)
    (directory : String) (filename : List Char) : Program σ Unit :=
  if 0 ≤ getCPUModel enumValue filename then
    load (directory ++ "/" ++ String.ofList filename) (getCPUModel enumValue filename)
  else pure ()

/-- `processFile`. -/
def processFile (f : List Char → Program σ Unit) (ent : Dirent) : Program σ Unit := do
  let json ← fromExcept (isJson ent.name)
  if json then f ent.name else pure ()

/-- The loop body of `loadFromDirectory`. -/
def processEntry (f : List Char → Program σ Unit) (ent : Dirent) : Program σ Unit :=
  if isFile ent then processFile f ent else pure ()

/-- The loop of `loadFromDirectory`. -/
def processEntries (f : List Char → Program σ Unit) : List Dirent → Program σ Unit
  | [] => pure ()
  | ent :: entries => do
    processEntry f ent
    processEntries f entries

/-- `HwCounterJsonReader::loadFromDirectory`, with the function that loads a file left open. The
listing is what `readdir` gives for the directory, if `opendir` opens it. -/
def loadFromDirectoryWith (load : String → ℤ → Program σ Unit)
    (enumValue : SupportedCPUModel → ℤ) (directory : String) (listing : Option (List Dirent)) :
    Program σ Unit :=
  match listing with
  | none => pure ()
  | some entries => processEntries (loadCounterFunctor load enumValue directory) entries

/-- `HwCounterJsonReader::loadFromDirectory`. -/
def loadFromDirectory (handler : FatalHandler) (env : Environment)
    (enumValue : SupportedCPUModel → ℤ) (directory : String) (listing : Option (List Dirent)) :
    Program HwCounterJsonReader Unit :=
  loadFromDirectoryWith (loadCounters handler env) enumValue directory listing

/-! ### The loads one expects -/

/-- The load a directory entry is good for: it is a regular file whose name ends in `json`, and what
is in front of its first underscore names a CPU model. -/
def expectedLoad (enumValue : SupportedCPUModel → ℤ) (directory : String) (ent : Dirent) :
    Option Load :=
  if ent.type = .regular ∧ "json".toList <:+ ent.name ∧ '_' ∈ ent.name then
    (c_cpuModels.lookup (String.ofList (ent.name.takeWhile (· ≠ '_')))).map fun cpuModel ↦
      ⟨directory ++ "/" ++ String.ofList ent.name, enumValue cpuModel⟩
  else none

/-- The loads of a directory in the order of its listing. -/
def expectedLoads (enumValue : SupportedCPUModel → ℤ) (directory : String)
    (listing : Option (List Dirent)) : List Load :=
  (listing.getD []).filterMap (expectedLoad enumValue directory)

/-- Give loads to the function that loads a file, one after the other. -/
def performLoads (load : String → ℤ → Program σ Unit) : List Load → Program σ Unit
  | [] => pure ()
  | call :: calls => do
    load call.filePath call.cpuModel
    performLoads load calls

theorem performLoads_loadCounters (handler : FatalHandler) (env : Environment)
    (loads : List Load) : performLoads (loadCounters handler env) loads =
      loadAll handler env loads := by
  induction loads with
  | nil => rfl
  | cons load loads ih => rw [performLoads, loadAll, ih]

/-! ### One name -/

section Name

variable {filename : List Char}

/-- A name with four characters is asked for its last four. -/
theorem isJson_of_four_le (hlength : filename.length < 2 ^ 31) (hfour : 4 ≤ filename.length) :
    isJson filename = .ok (decide ("json".toList <:+ filename)) := by
  have hpos : sizeT (filename.length + (2 ^ 64 - 4)) = filename.length - 4 := by
    unfold sizeT
    omega
  have hsuffix : filename.drop (filename.length - 4) = "json".toList ↔
      "json".toList <:+ filename :=
    eq_comm.trans List.suffix_iff_eq_drop.symm
  rw [isJson, hpos, substr, if_pos (Nat.sub_le _ _)]
  exact congrArg Except.ok (decide_eq_decide.mpr hsuffix)

/-- A shorter name makes `substr` throw. -/
theorem isJson_of_lt_four (hshort : filename.length < 4) :
    isJson filename = .error (.thrown (.outOfRange "basic_string::substr")) := by
  have hpos : ¬ sizeT (filename.length + (2 ^ 64 - 4)) ≤ filename.length := by
    unfold sizeT
    omega
  rw [isJson, substr, if_neg hpos]
  rfl

/-- The model of a name with an underscore is looked up by what is in front of the first one. -/
theorem getCPUModel_of_mem (enumValue : SupportedCPUModel → ℤ)
    (hlength : filename.length < 2 ^ 31) (hmem : '_' ∈ filename) :
    getCPUModel enumValue filename =
      ((c_cpuModels.lookup (String.ofList (filename.takeWhile (· ≠ '_')))).map enumValue).getD
        (-1) := by
  have hfound : filename.findIdx (· == '_') < filename.length :=
    List.findIdx_lt_length_of_exists ⟨'_', hmem, beq_self_eq_true '_'⟩
  have hint : intOfSizeT (filename.findIdx (· == '_')) = filename.findIdx (· == '_') :=
    Int.bmod_eq_of_le (by omega) (by omega)
  have hpos : sizeTOfInt (filename.findIdx (· == '_')) = filename.findIdx (· == '_') := by
    unfold sizeTOfInt
    omega
  have hne : filename.findIdx (· == '_') ≠ npos := by
    unfold npos
    omega
  have htake : filename.take (filename.findIdx (· == '_')) = filename.takeWhile (· ≠ '_') := by
    have hsame : (fun c ↦ !decide (c ≠ '_')) = (· == '_') := by
      funext c
      simp [Bool.beq_eq_decide_eq]
    rw [List.takeWhile_eq_take_findIdx_not, hsame]
  rw [getCPUModel, find, if_pos hfound, hint, hpos]
  simp only [if_neg hne, htake]
  cases c_cpuModels.lookup (String.ofList (filename.takeWhile (· ≠ '_'))) <;> rfl

/-- A name without an underscore has no model. -/
theorem getCPUModel_of_notMem (enumValue : SupportedCPUModel → ℤ) (hmem : '_' ∉ filename) :
    getCPUModel enumValue filename = -1 := by
  have hnone : ¬ filename.findIdx (· == '_') < filename.length := by
    rw [List.findIdx_lt_length]
    rintro ⟨c, hc, heq⟩
    exact hmem (eq_of_beq heq ▸ hc)
  have hpos : sizeTOfInt (intOfSizeT npos) = npos := by decide
  have hfind : find filename '_' = npos := if_neg hnone
  unfold getCPUModel
  rw [hfind]
  exact if_pos hpos

end Name

/-! ### The loop -/

section Loop

variable {enumValue : SupportedCPUModel → ℤ} {directory : String}

/-- The name of an entry is long enough for the filter, if the entry is a file. -/
def Dirent.IsLongEnough (ent : Dirent) : Prop := ent.type = .regular → 4 ≤ ent.name.length

instance : DecidablePred Dirent.IsLongEnough := fun ent ↦
  inferInstanceAs (Decidable (ent.type = .regular → 4 ≤ ent.name.length))

/-- An entry that is a database of a CPU model is good for its load. -/
theorem expectedLoad_of_mem {ent : Dirent} (hregular : ent.type = .regular)
    (hjson : "json".toList <:+ ent.name) (hmem : '_' ∈ ent.name) :
    expectedLoad enumValue directory ent =
      (c_cpuModels.lookup (String.ofList (ent.name.takeWhile (· ≠ '_')))).map fun cpuModel ↦
        ⟨directory ++ "/" ++ String.ofList ent.name, enumValue cpuModel⟩ :=
  if_pos ⟨hregular, hjson, hmem⟩

/-- Any other entry is good for nothing. -/
theorem expectedLoad_of_not {ent : Dirent}
    (h : ¬ (ent.type = .regular ∧ "json".toList <:+ ent.name ∧ '_' ∈ ent.name)) :
    expectedLoad enumValue directory ent = none :=
  if_neg h

/-- The functor loads a file whose name has a model, and no other. Assumes: the CPU models of PCM
have no negative numbers. -/
theorem loadCounterFunctor_eq (henum : ∀ cpuModel, 0 ≤ enumValue cpuModel)
    (load : String → ℤ → Program σ Unit) {ent : Dirent} (hregular : ent.type = .regular)
    (hjson : "json".toList <:+ ent.name) :
    loadCounterFunctor load enumValue directory ent.name =
      performLoads load (expectedLoad enumValue directory ent).toList := by
  rw [loadCounterFunctor]
  by_cases hmem : '_' ∈ ent.name
  · rw [expectedLoad_of_mem hregular hjson hmem, getCPUModel_of_mem enumValue ent.length_lt hmem]
    cases c_cpuModels.lookup (String.ofList (ent.name.takeWhile (· ≠ '_'))) with
    | none => rfl
    | some cpuModel =>
      have hpositive : 0 ≤ ((some cpuModel).map enumValue).getD (-1) := henum cpuModel
      rw [if_pos hpositive]
      exact (bind_pure _).symm
  · rw [expectedLoad_of_not fun h ↦ hmem h.2.2, getCPUModel_of_notMem enumValue hmem]
    rfl

/-- The loop body is the expected load of its entry. Assumes: the CPU models of PCM have no negative
numbers. -/
theorem processEntry_eq (henum : ∀ cpuModel, 0 ≤ enumValue cpuModel)
    (load : String → ℤ → Program σ Unit) {ent : Dirent} (hlong : ent.IsLongEnough) :
    processEntry (loadCounterFunctor load enumValue directory) ent =
      performLoads load (expectedLoad enumValue directory ent).toList := by
  by_cases hregular : ent.type = .regular
  · rw [processEntry, isFile, if_pos (decide_eq_true hregular), processFile,
      isJson_of_four_le ent.length_lt (hlong hregular)]
    by_cases hjson : "json".toList <:+ ent.name
    · rw [← loadCounterFunctor_eq henum load hregular hjson, decide_eq_true hjson, fromExcept,
        pure_bind, if_pos rfl]
    · rw [expectedLoad_of_not fun h ↦ hjson h.2.1, decide_eq_false hjson, fromExcept, pure_bind]
      rfl
  · rw [processEntry, isFile, decide_eq_false hregular, expectedLoad_of_not fun h ↦ hregular h.1]
    rfl

/-- Loads one after the other, cut in two. -/
theorem performLoads_append (load : String → ℤ → Program σ Unit) (first second : List Load) :
    performLoads load (first ++ second) =
      (performLoads load first >>= fun _ ↦ performLoads load second) := by
  induction first with
  | nil => exact (pure_bind _ _).symm
  | cons call calls ih => rw [List.cons_append, performLoads, performLoads, ih, bind_assoc]

theorem expectedLoads_cons (enumValue : SupportedCPUModel → ℤ) (directory : String) (ent : Dirent)
    (entries : List Dirent) : expectedLoads enumValue directory (some (ent :: entries)) =
      (expectedLoad enumValue directory ent).toList ++
        expectedLoads enumValue directory (some entries) := by
  cases h : expectedLoad enumValue directory ent with
  | none => exact List.filterMap_cons_none h
  | some load => exact List.filterMap_cons_some h

/-- When all names are long enough, loading from the directory is the expected loads. Assumes: the
CPU models of PCM have no negative numbers. -/
theorem processEntries_eq (henum : ∀ cpuModel, 0 ≤ enumValue cpuModel)
    (load : String → ℤ → Program σ Unit) {entries : List Dirent}
    (hlong : ∀ ent ∈ entries, ent.IsLongEnough) :
    processEntries (loadCounterFunctor load enumValue directory) entries =
      performLoads load (expectedLoads enumValue directory (some entries)) := by
  induction entries with
  | nil => rfl
  | cons ent entries ih =>
    obtain ⟨hent, hentries⟩ := List.forall_mem_cons.mp hlong
    rw [processEntries, processEntry_eq henum load hent, ih hentries, expectedLoads_cons,
      performLoads_append]

/-- When a name is too short, loading from the directory throws, however well the loads go. -/
theorem processEntries_throws (henum : ∀ cpuModel, 0 ≤ enumValue cpuModel)
    (load : String → ℤ → Program σ Unit) {entries : List Dirent}
    (hshort : ¬ ∀ ent ∈ entries, ent.IsLongEnough) {m final : Machine Event σ}
    (hloads : (performLoads load (expectedLoads enumValue directory (some entries))).run m =
      .ok () final) :
    ∃ what m', (processEntries (loadCounterFunctor load enumValue directory) entries).run m =
      .error (.thrown (.outOfRange what)) m' := by
  induction entries generalizing m with
  | nil => exact absurd (fun _ hent ↦ absurd hent List.not_mem_nil) hshort
  | cons ent entries ih =>
    rw [processEntries]
    by_cases hent : ent.IsLongEnough
    · rw [expectedLoads_cons, performLoads_append, run_bind_eq_ok] at hloads
      obtain ⟨_, m₁, hfirst, hrest⟩ := hloads
      have hentries : ¬ ∀ other ∈ entries, other.IsLongEnough := fun hall ↦
        hshort (List.forall_mem_cons.mpr ⟨hent, hall⟩)
      rw [processEntry_eq henum load hent, run_bind_of_ok hfirst]
      exact ih hentries hrest
    · obtain ⟨hregular, hname⟩ := Classical.not_imp.mp hent
      have hthrown : (processEntry (loadCounterFunctor load enumValue directory) ent).run m =
          .error (.thrown (.outOfRange "basic_string::substr")) m := by
        rw [processEntry, isFile, if_pos (decide_eq_true hregular), processFile,
          isJson_of_lt_four (not_le.mp hname)]
        rfl
      exact ⟨_, _, run_bind_of_error hthrown _⟩

end Loop

/-- Loading from a directory completes, and whatever loading one file does, it is the loads one
expects in the order of the listing and nothing else, exactly when every regular file has a name of
at least four characters. Assumes: the CPU models of PCM have no negative numbers, and the expected
loads succeed. -/
theorem loadFromDirectory_exact_iff {handler : FatalHandler} {env : Environment}
    {enumValue : SupportedCPUModel → ℤ} (henum : ∀ cpuModel, 0 ≤ enumValue cpuModel)
    (directory : String) (listing : Option (List Dirent))
    {m : Machine Event HwCounterJsonReader}
    (hloads : returned ((loadAll handler env (expectedLoads enumValue directory listing)).run m) =
      true) :
    (returned ((loadFromDirectory handler env enumValue directory listing).run m) = true ∧
      ∀ (σ : Type) (load : String → ℤ → Program σ Unit),
        loadFromDirectoryWith load enumValue directory listing =
          performLoads load (expectedLoads enumValue directory listing)) ↔
      ∀ ent ∈ listing.getD [], ent.type = .regular → 4 ≤ ent.name.length := by
  cases listing with
  | none =>
    refine iff_of_true ⟨rfl, fun _ _ ↦ rfl⟩ ?_
    exact fun _ hent ↦ absurd hent List.not_mem_nil
  | some entries =>
    have hexpected := eq_ok_of_returned hloads
    rw [← performLoads_loadCounters] at hexpected
    constructor
    · rintro ⟨hreturned, _⟩
      by_contra hshort
      have hthrows : ∃ what m', (loadFromDirectory handler env enumValue directory
          (some entries)).run m = .error (.thrown (.outOfRange what)) m' :=
        processEntries_throws henum (loadCounters handler env) hshort hexpected
      obtain ⟨what, m', hthrown⟩ := hthrows
      rw [hthrown] at hreturned
      cases hreturned
    · intro hlong
      have hexact : ∀ (σ : Type) (load : String → ℤ → Program σ Unit),
          loadFromDirectoryWith load enumValue directory (some entries) =
            performLoads load (expectedLoads enumValue directory (some entries)) :=
        fun σ load ↦ processEntries_eq henum load hlong
      refine ⟨?_, hexact⟩
      rw [loadFromDirectory, hexact, hexpected, returned]

/-- Numbers PCM gives its CPU models. -/
def pcmNumber : SupportedCPUModel → ℤ
  | .broadwell => 61
  | .bdxDe => 86
  | .bdx => 79
  | .haswell => 60
  | .haswellx => 63
  | .ivyBridge => 58
  | .ivytown => 62
  | .skl => 94
  | .skx => 85

/-- A directory with two of the shipped databases, and with entries of other kinds. -/
def databaseListing : List Dirent :=
  [⟨.directory, ".".toList, by decide, by decide⟩, ⟨.directory, "..".toList, by decide, by decide⟩,
    ⟨.regular, "haswell_core_v26.json".toList, by decide, by decide⟩,
    ⟨.regular, "README.md".toList, by decide, by decide⟩,
    ⟨.regular, "skylake_core_v30.json".toList, by decide, by decide⟩,
    ⟨.regular, "skylake.json".toList, by decide, by decide⟩]

/-- The two databases are loaded and nothing else is. -/
theorem loadFromDirectory_exact_shipped :
    expectedLoads pcmNumber "db" (some databaseListing) = [haswellLoad, skylakeLoad] ∧
      returned ((loadFromDirectory defaultFatalHandler excerptFiles pcmNumber "db"
        (some databaseListing)).run (.fresh .empty)) = true := by
  have hpositive : ∀ cpuModel, 0 ≤ pcmNumber cpuModel := by
    intro cpuModel
    cases cpuModel <;> decide
  have hexact := loadFromDirectory_exact_iff hpositive "db" (some databaseListing)
    (by decide +kernel : returned ((loadAll defaultFatalHandler excerptFiles
      (expectedLoads pcmNumber "db" (some databaseListing))).run (.fresh .empty)) = true)
  exact ⟨by decide +kernel, (hexact.mpr (by decide +kernel)).1⟩

/-- A file with a short name, the database loads and the directory does not. -/
theorem shortName_throws :
    let listing := ⟨.regular, "a".toList, by decide, by decide⟩ :: databaseListing
    returned ((loadAll defaultFatalHandler excerptFiles
        (expectedLoads pcmNumber "db" (some listing))).run (.fresh .empty)) = true ∧
      returned ((loadFromDirectory defaultFatalHandler excerptFiles pcmNumber "db"
        (some listing)).run (.fresh .empty)) = false := by
  decide +kernel

end PcmWrapper
