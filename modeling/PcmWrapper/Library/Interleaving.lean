import Mathlib.Data.List.Nodup
import Mathlib.Logic.Function.Basic

/-!
# Threads that put items on one output

Threads run their steps in any order a scheduler picks. A step puts an item on the common output, or
acquires or releases the one mutex there is. `runSchedule` is a run under a schedule: the list of
the threads whose turn it is.

Two kinds of threads are treated. A thread that puts its whole block while it holds the mutex keeps
it together: when all threads do so, the output of a finished run is a concatenation of whole
blocks, in the order in which they acquired the mutex (`exists_order_of_guarded`). Threads without a
mutex keep the order of their own items and nothing else (`putBy_of_unguarded`), and every run of
theirs can be finished (`exists_finished_of_puts`).

`runTurns` is a run under any schedule at all, in which a thread lets its turn pass when it can take
no step. Threads without a mutex have then put as many items as they have had turns
(`putBy_runTurns`).
-/

set_option autoImplicit false
set_option relaxedAutoImplicit false

namespace PcmWrapper.Library

variable {ι α : Type}

/-! ### Schedules -/

/-- A step of a thread. -/
inductive Step (α : Type)
  | acquire
  | release
  | put (item : α)
  deriving DecidableEq

/-- What the threads have still to do, who holds the mutex, and the output with the thread of each
item. -/
structure Threads (ι α : Type) where
  remaining : ι → List (Step α)
  holder : Option ι
  output : List (ι × α)

/-- The threads before their first steps. -/
def Threads.start (programs : ι → List (Step α)) : Threads ι α := ⟨programs, none, []⟩

/-- No thread has anything left to do. -/
def Threads.Finished (threads : Threads ι α) : Prop := ∀ i, threads.remaining i = []

/-- The items one thread has put on the output. -/
def Threads.putBy [DecidableEq ι] (threads : Threads ι α) (i : ι) : List α :=
  (threads.output.filter fun entry ↦ entry.1 = i).map Prod.snd

/-- The next step of a thread, unless it has finished or is blocked. -/
def advance [DecidableEq ι] (threads : Threads ι α) (i : ι) : Option (Threads ι α) :=
  match threads.remaining i with
  | [] => none
  | .acquire :: rest =>
    if threads.holder = none then
      some { threads with remaining := Function.update threads.remaining i rest, holder := some i }
    else none
  | .release :: rest =>
    if threads.holder = some i then
      some { threads with remaining := Function.update threads.remaining i rest, holder := none }
    else none
  | .put item :: rest =>
    some { threads with
      remaining := Function.update threads.remaining i rest
      output := threads.output ++ [(i, item)] }

/-- The threads take steps in the order of a schedule. -/
def runSchedule [DecidableEq ι] : List ι → Threads ι α → Option (Threads ι α)
  | [], threads => some threads
  | i :: schedule, threads => (advance threads i).bind (runSchedule schedule)

/-- A block put on the output under the mutex. -/
def guarded (block : List α) : List (Step α) := .acquire :: (block.map .put ++ [.release])

/-- A block put on the output without the mutex. -/
def unguarded (block : List α) : List (Step α) := block.map .put

/-- The threads take turns in the order of a schedule, and a thread that can take no step lets its
turn pass. -/
def runTurns [DecidableEq ι] : List ι → Threads ι α → Threads ι α
  | [], threads => threads
  | i :: schedule, threads => runTurns schedule ((advance threads i).getD threads)

variable [DecidableEq ι]

/-- What every step keeps holds after every run. -/
theorem runSchedule_invariant {invariant : Threads ι α → Prop}
    (hstep : ∀ threads i next, invariant threads → advance threads i = some next → invariant next)
    {schedule : List ι} {threads final : Threads ι α} (h : invariant threads)
    (hrun : runSchedule schedule threads = some final) : invariant final := by
  induction schedule generalizing threads with
  | nil =>
    cases hrun
    exact h
  | cons i schedule ih =>
    obtain ⟨next, hnext, hrest⟩ := Option.bind_eq_some_iff.mp hrun
    exact ih (hstep threads i next h hnext) hrest

/-- A schedule in two parts. -/
theorem runSchedule_append (first second : List ι) (threads : Threads ι α) :
    runSchedule (first ++ second) threads =
      (runSchedule first threads).bind (runSchedule second) := by
  induction first generalizing threads with
  | nil => rfl
  | cons i schedule ih =>
    rw [List.cons_append, runSchedule, runSchedule, Option.bind_assoc]
    exact congrArg _ (funext ih)

/-! ### Threads under the mutex -/

/-- Where threads with guarded blocks stand: some have finished, one after the other, at most one is
in the middle of its block, and the others have not begun. -/
structure Serial (block : ι → List α) (threads : Threads ι α) (done : List ι)
    (current : List (ι × α)) : Prop where
  nodup : done.Nodup
  output_eq : threads.output = (done.flatMap fun i ↦ (block i).map (i, ·)) ++ current
  finished : ∀ i ∈ done, threads.remaining i = []
  waiting : ∀ i ∉ done, threads.holder ≠ some i → threads.remaining i = guarded (block i)
  idle : threads.holder = none → current = []
  busy : ∀ i, threads.holder = some i → i ∉ done ∧ ∃ written rest, written ++ rest = block i ∧
    current = written.map (i, ·) ∧ threads.remaining i = rest.map .put ++ [.release]

section Serial

variable {block : ι → List α} {threads : Threads ι α} {done : List ι} {current : List (ι × α)}
  {i : ι}

/-- A thread that waits acquires the mutex, when nobody holds it. -/
theorem Serial.acquire (h : Serial block threads done current) (hi : i ∉ done)
    (hfree : threads.holder = none) :
    Serial block { threads with
      remaining := Function.update threads.remaining i ((block i).map .put ++ [.release])
      holder := some i } done [] where
  nodup := h.nodup
  output_eq := by
    rw [h.output_eq, h.idle hfree]
  finished := by
    intro other hother
    have hne : other ≠ i := fun heq ↦ hi (heq ▸ hother)
    show Function.update threads.remaining i _ other = []
    rw [Function.update_of_ne hne, h.finished other hother]
  waiting := by
    intro other hother hnot
    have hne : other ≠ i := fun heq ↦ hnot (heq ▸ rfl)
    have hwaits : threads.holder ≠ some other := by
      rw [hfree]
      exact nofun
    show Function.update threads.remaining i _ other = _
    rw [Function.update_of_ne hne, h.waiting other hother hwaits]
  idle := fun hnone ↦ absurd hnone nofun
  busy := by
    intro other hother
    cases hother
    exact ⟨hi, [], block i, rfl, rfl, Function.update_self ..⟩

/-- The holder of the mutex puts its next item. -/
theorem Serial.put (h : Serial block threads done current) (hholder : threads.holder = some i)
    {written rest : List α} {item : α} (hblock : written ++ item :: rest = block i)
    (hcurrent : current = written.map (i, ·)) :
    Serial block { threads with
      remaining := Function.update threads.remaining i (rest.map .put ++ [.release])
      output := threads.output ++ [(i, item)] } done ((written ++ [item]).map (i, ·)) where
  nodup := h.nodup
  output_eq := by
    rw [h.output_eq, hcurrent, List.map_append, List.append_assoc]
    rfl
  finished := by
    intro other hother
    have hne : other ≠ i := fun heq ↦ (h.busy i hholder).1 (heq ▸ hother)
    show Function.update threads.remaining i _ other = []
    rw [Function.update_of_ne hne, h.finished other hother]
  waiting := by
    intro other hother hnot
    have hne : other ≠ i := fun heq ↦ hnot (heq ▸ hholder)
    show Function.update threads.remaining i _ other = _
    rw [Function.update_of_ne hne, h.waiting other hother hnot]
  idle := by
    intro hnone
    rw [hholder] at hnone
    cases hnone
  busy := by
    intro other hother
    rw [hholder] at hother
    cases hother
    refine ⟨(h.busy i hholder).1, written ++ [item], rest, ?_, rfl, Function.update_self ..⟩
    rw [List.append_assoc]
    exact hblock

/-- The holder of the mutex has put its whole block and releases it. -/
theorem Serial.release (h : Serial block threads done current)
    (hholder : threads.holder = some i) (hcurrent : current = (block i).map (i, ·)) :
    Serial block { threads with
      remaining := Function.update threads.remaining i []
      holder := none } (done ++ [i]) [] where
  nodup := by
    rw [List.nodup_append]
    refine ⟨h.nodup, List.nodup_singleton i, fun other hother last hlast heq ↦ ?_⟩
    rw [List.mem_singleton.mp hlast] at heq
    exact (h.busy i hholder).1 (heq ▸ hother)
  output_eq := by
    rw [h.output_eq, hcurrent, List.flatMap_append, List.flatMap_singleton, List.append_nil]
  finished := by
    intro other hother
    show Function.update threads.remaining i [] other = []
    by_cases hne : other = i
    · rw [hne, Function.update_self]
    · rw [Function.update_of_ne hne]
      rcases List.mem_append.mp hother with hold | hlast
      · exact h.finished other hold
      · exact absurd (List.mem_singleton.mp hlast) hne
  waiting := by
    intro other hother _
    have hne : other ≠ i := fun heq ↦
      hother (List.mem_append_right _ (List.mem_singleton.mpr heq))
    have hwaits : threads.holder ≠ some other := by
      rw [hholder]
      exact fun heq ↦ hne (Option.some.inj heq).symm
    show Function.update threads.remaining i [] other = _
    rw [Function.update_of_ne hne,
      h.waiting other (fun hmem ↦ hother (List.mem_append_left _ hmem)) hwaits]
  idle := fun _ ↦ rfl
  busy := fun _ hnone ↦ absurd hnone nofun

/-- Every step keeps the threads in such a place. -/
theorem serial_advance {next : Threads ι α} (h : Serial block threads done current)
    (hstep : advance threads i = some next) :
    ∃ done' current', Serial block next done' current' := by
  by_cases hdone : i ∈ done
  · -- A finished thread takes no step.
    rw [advance, h.finished i hdone] at hstep
    cases hstep
  by_cases hholder : threads.holder = some i
  · obtain ⟨-, written, rest, hblock, hcurrent, hremaining⟩ := h.busy i hholder
    cases rest with
    | nil =>
      rw [List.append_nil] at hblock
      rw [advance, hremaining] at hstep
      simp only [List.map_nil, List.nil_append, hholder, if_true, Option.some.injEq] at hstep
      exact hstep ▸ ⟨_, _, h.release hholder (hblock ▸ hcurrent)⟩
    | cons item rest =>
      rw [advance, hremaining] at hstep
      simp only [List.map_cons, List.cons_append, Option.some.injEq] at hstep
      exact hstep ▸ ⟨_, _, h.put hholder hblock hcurrent⟩
  · -- A thread that waits can only acquire the mutex.
    rw [advance, h.waiting i hdone hholder, guarded] at hstep
    by_cases hfree : threads.holder = none
    · simp only [hfree, if_true, Option.some.injEq] at hstep
      exact hstep ▸ ⟨_, _, h.acquire hdone hfree⟩
    · simp only [hfree, if_false] at hstep
      cases hstep

end Serial

/-- When all threads put their blocks under the mutex, the output of a finished run consists of
whole blocks, one for each thread. -/
theorem exists_order_of_guarded {block : ι → List α} {schedule : List ι} {final : Threads ι α}
    (hrun : runSchedule schedule (.start fun i ↦ guarded (block i)) = some final)
    (hfinished : final.Finished) : ∃ order : List ι, order.Nodup ∧ (∀ i, i ∈ order) ∧
      final.output = order.flatMap fun i ↦ (block i).map (i, ·) := by
  have hstart : Serial block (.start fun i ↦ guarded (block i)) [] [] :=
    ⟨List.nodup_nil, rfl, fun _ hmem ↦ absurd hmem List.not_mem_nil, fun _ _ _ ↦ rfl,
      fun _ ↦ rfl, fun _ hholder ↦ absurd hholder nofun⟩
  have hstep : ∀ (threads : Threads ι α) i next,
      (∃ done current, Serial block threads done current) → advance threads i = some next →
        ∃ done current, Serial block next done current :=
    fun _ _ _ ⟨_, _, h⟩ hadvance ↦ serial_advance h hadvance
  obtain ⟨order, current, hfinal⟩ := runSchedule_invariant hstep ⟨_, _, hstart⟩ hrun
  have hfree : final.holder = none := by
    rw [Option.eq_none_iff_forall_ne_some]
    intro i hholder
    obtain ⟨-, _, _, _, _, hremaining⟩ := hfinal.busy i hholder
    rw [hfinished i] at hremaining
    exact absurd hremaining.symm (List.append_ne_nil_of_right_ne_nil _ (List.cons_ne_nil _ _))
  refine ⟨order, hfinal.nodup, fun i ↦ ?_, ?_⟩
  · by_contra hi
    have hremaining := hfinal.waiting i hi (by rw [hfree]; exact nofun)
    rw [hfinished i] at hremaining
    exact absurd hremaining.symm (List.cons_ne_nil _ _)
  · rw [hfinal.output_eq, hfinal.idle hfree, List.append_nil]

/-! ### Threads without a mutex -/

/-- Every step of threads without a mutex keeps the order of each thread's own items. -/
theorem putBy_advance {block : ι → List α} {threads next : Threads ι α} {i : ι}
    (h : ∀ j, ∃ rest, threads.remaining j = unguarded rest ∧ threads.putBy j ++ rest = block j)
    (hstep : advance threads i = some next) (j : ι) :
    ∃ rest, next.remaining j = unguarded rest ∧ next.putBy j ++ rest = block j := by
  obtain ⟨rest, hremaining, hblock⟩ := h i
  cases rest with
  | nil =>
    rw [advance, hremaining, unguarded] at hstep
    cases hstep
  | cons item rest =>
    rw [advance, hremaining, unguarded] at hstep
    simp only [List.map_cons, Option.some.injEq] at hstep
    subst hstep
    by_cases hj : j = i
    · subst hj
      refine ⟨rest, Function.update_self .., ?_⟩
      rw [← hblock, Threads.putBy, Threads.putBy, List.filter_append, List.map_append]
      simp
    · obtain ⟨others, hothers, hotherBlock⟩ := h j
      refine ⟨others, ?_, ?_⟩
      · show Function.update threads.remaining i _ j = _
        rw [Function.update_of_ne hj, hothers]
      · rw [← hotherBlock, Threads.putBy, Threads.putBy, List.filter_append, List.map_append]
        simp [Ne.symm hj]

/-- In a run of threads without a mutex, each has put the first part of its block, in its order, and
puts the rest next. -/
theorem putBy_append_of_unguarded {block : ι → List α} {schedule : List ι} {reached : Threads ι α}
    (hrun : runSchedule schedule (.start fun i ↦ unguarded (block i)) = some reached) (i : ι) :
    ∃ rest, reached.remaining i = unguarded rest ∧ reached.putBy i ++ rest = block i := by
  have hstep : ∀ (threads : Threads ι α) j next,
      (∀ k, ∃ rest, threads.remaining k = unguarded rest ∧ threads.putBy k ++ rest = block k) →
      advance threads j = some next →
      ∀ k, ∃ rest, next.remaining k = unguarded rest ∧ next.putBy k ++ rest = block k :=
    fun _ _ _ h hadvance ↦ putBy_advance h hadvance
  have hstart : ∀ k, ∃ rest, (Threads.start fun i ↦ unguarded (block i)).remaining k =
      unguarded rest ∧ (Threads.start fun i ↦ unguarded (block i)).putBy k ++ rest = block k :=
    fun k ↦ ⟨block k, rfl, rfl⟩
  exact runSchedule_invariant hstep hstart hrun i

/-- In a finished run of threads without a mutex, each has put its whole block, in its order. -/
theorem putBy_of_unguarded {block : ι → List α} {schedule : List ι} {final : Threads ι α}
    (hrun : runSchedule schedule (.start fun i ↦ unguarded (block i)) = some final)
    (hfinished : final.Finished) (i : ι) : final.putBy i = block i := by
  obtain ⟨rest, hremaining, hblock⟩ := putBy_append_of_unguarded hrun i
  rw [hfinished i] at hremaining
  have hrest : rest = [] := List.map_eq_nil_iff.mp hremaining.symm
  rwa [hrest, List.append_nil] at hblock

/-- A thread without a mutex can put all its items without a break. -/
theorem exists_run_of_thread {items : List α} {threads : Threads ι α} {i : ι}
    (h : threads.remaining i = unguarded items) : ∃ schedule final,
      runSchedule schedule threads = some final ∧
      final.remaining = Function.update threads.remaining i [] ∧
      ∃ later, final.output = threads.output ++ later := by
  induction items generalizing threads with
  | nil =>
    refine ⟨[], threads, rfl, ?_, [], (List.append_nil _).symm⟩
    have hnil : threads.remaining i = [] := h
    rw [← hnil, Function.update_eq_self]
  | cons item items ih =>
    let next : Threads ι α := { threads with
      remaining := Function.update threads.remaining i (unguarded items)
      output := threads.output ++ [(i, item)] }
    have hadvance : advance threads i = some next := by
      rw [advance, h]
      rfl
    have hnext : next.remaining i = unguarded items := Function.update_self ..
    obtain ⟨schedule, final, hrun, hremaining, later, houtput⟩ := ih hnext
    refine ⟨i :: schedule, final, ?_, ?_, (i, item) :: later, ?_⟩
    · rw [runSchedule, hadvance]
      exact hrun
    · rw [hremaining]
      exact Function.update_idem ..
    · rw [houtput, List.append_assoc]
      rfl

/-- Threads without a mutex can all put their items, one after the other. -/
theorem exists_run_of_threads (order : List ι) {threads : Threads ι α}
    (h : ∀ i, ∃ items, threads.remaining i = unguarded items) : ∃ schedule final,
      runSchedule schedule threads = some final ∧ (∀ i ∈ order, final.remaining i = []) ∧
      (∀ i, ∃ items, final.remaining i = unguarded items) ∧
      ∃ later, final.output = threads.output ++ later := by
  induction order with
  | nil =>
    exact ⟨[], threads, rfl, fun _ hmem ↦ absurd hmem List.not_mem_nil, h, [],
      (List.append_nil _).symm⟩
  | cons i order ih =>
    obtain ⟨first, middle, hfirst, hdone, hputs, earlier, hmiddle⟩ := ih
    obtain ⟨items, hitems⟩ := hputs i
    obtain ⟨second, final, hsecond, hremaining, later, hfinal⟩ := exists_run_of_thread hitems
    refine ⟨first ++ second, final, ?_, fun j hj ↦ ?_, fun j ↦ ?_, earlier ++ later, ?_⟩
    · rw [runSchedule_append, hfirst]
      exact hsecond
    · rw [hremaining]
      by_cases heq : j = i
      · rw [heq, Function.update_self]
      · rw [Function.update_of_ne heq]
        exact hdone j ((List.mem_cons.mp hj).resolve_left heq)
    · rw [hremaining]
      by_cases heq : j = i
      · exact ⟨[], by rw [heq, Function.update_self]; rfl⟩
      · rw [Function.update_of_ne heq]
        exact hputs j
    · rw [hfinal, hmiddle, List.append_assoc]

/-- Every run of finitely many threads without a mutex can be finished. -/
theorem exists_finished_of_puts {order : List ι} (hall : ∀ i, i ∈ order) {threads : Threads ι α}
    (h : ∀ i, ∃ items, threads.remaining i = unguarded items) : ∃ schedule final,
      runSchedule schedule threads = some final ∧ final.Finished ∧
      ∃ later, final.output = threads.output ++ later := by
  obtain ⟨schedule, final, hrun, hdone, -, houtput⟩ := exists_run_of_threads order h
  exact ⟨schedule, final, hrun, fun i ↦ hdone i (hall i), houtput⟩

/-- The next item of a thread without a mutex. -/
theorem advance_of_unguarded {threads : Threads ι α} {i : ι} {item : α} {rest : List α}
    (h : threads.remaining i = unguarded (item :: rest)) : advance threads i =
      some { threads with
        remaining := Function.update threads.remaining i (unguarded rest)
        output := threads.output ++ [(i, item)] } := by
  rw [advance, h]
  rfl

/-- Of threads without a mutex any two can begin, and then the run can be finished. -/
theorem exists_finished_of_two {order : List ι} (hall : ∀ i, i ∈ order) (block : ι → List α)
    {first second : ι} (hne : second ≠ first) {firstItem secondItem : α}
    {firstRest secondRest : List α} (hfirst : block first = firstItem :: firstRest)
    (hsecond : block second = secondItem :: secondRest) : ∃ schedule final,
      runSchedule schedule (.start fun i ↦ unguarded (block i)) = some final ∧ final.Finished ∧
      ∃ later, final.output = [(first, firstItem), (second, secondItem)] ++ later := by
  let start : Threads ι α := .start fun i ↦ unguarded (block i)
  have hfirstRemaining : start.remaining first = unguarded (firstItem :: firstRest) :=
    congrArg unguarded hfirst
  have hone := advance_of_unguarded hfirstRemaining
  obtain ⟨middle, hmiddle⟩ : ∃ middle, advance start first = some middle := ⟨_, hone⟩
  have hmiddleEq := Option.some.inj (hmiddle.symm.trans hone)
  have hsecondRemaining : middle.remaining second = unguarded (secondItem :: secondRest) := by
    rw [hmiddleEq]
    show Function.update start.remaining first _ second = _
    rw [Function.update_of_ne hne]
    exact congrArg unguarded hsecond
  have htwo := advance_of_unguarded hsecondRemaining
  obtain ⟨begun, hbegun⟩ : ∃ begun, advance middle second = some begun := ⟨_, htwo⟩
  have hbegunEq := Option.some.inj (hbegun.symm.trans htwo)
  have hputs : ∀ i, ∃ items, begun.remaining i = unguarded items := by
    intro i
    rw [hbegunEq, hmiddleEq]
    show ∃ items, Function.update (Function.update start.remaining first _) second _ i = _
    by_cases hi : i = second
    · exact ⟨secondRest, by rw [hi, Function.update_self]⟩
    · rw [Function.update_of_ne hi]
      by_cases hi : i = first
      · exact ⟨firstRest, by rw [hi, Function.update_self]⟩
      · rw [Function.update_of_ne hi]
        exact ⟨block i, rfl⟩
  obtain ⟨schedule, final, hrun, hfinished, later, houtput⟩ := exists_finished_of_puts hall hputs
  refine ⟨first :: second :: schedule, final, ?_, hfinished, later, ?_⟩
  · show (advance start first).bind (runSchedule (second :: schedule)) = _
    rw [hmiddle, Option.bind_some, runSchedule, hbegun, Option.bind_some, hrun]
  · rw [houtput, hbegunEq, hmiddleEq]
    rfl

/-! ### Turns that pass -/

/-- A turn of a thread without a mutex puts its next item, if there is one. -/
theorem turn_of_unguarded {threads : Threads ι α} {i : ι} {rest : List α}
    (h : threads.remaining i = unguarded rest) (j : ι) :
    ((advance threads i).getD threads).remaining j =
        (if j = i then unguarded rest.tail else threads.remaining j) ∧
      ((advance threads i).getD threads).putBy j =
        threads.putBy j ++ if j = i then rest.take 1 else [] := by
  cases rest with
  | nil =>
    have hpass : (advance threads i).getD threads = threads := by
      rw [advance, h]
      rfl
    rw [hpass]
    by_cases hj : j = i
    · subst hj
      simp [h]
    · simp [hj]
  | cons item rest =>
    rw [advance_of_unguarded h, Option.getD_some]
    by_cases hj : j = i
    · subst hj
      simp [Threads.putBy, List.filter_append]
    · have hne : ¬ i = j := fun heq ↦ hj heq.symm
      simp [Threads.putBy, List.filter_append, hj, hne]

/-- Threads without a mutex put the items they still have in their order, one in each turn. -/
theorem runTurns_of_remaining (schedule : List ι) {threads : Threads ι α} {rest : ι → List α}
    (h : ∀ i, threads.remaining i = unguarded (rest i)) (i : ι) :
    (runTurns schedule threads).remaining i = unguarded ((rest i).drop (schedule.count i)) ∧
      (runTurns schedule threads).putBy i =
        threads.putBy i ++ (rest i).take (schedule.count i) := by
  induction schedule generalizing threads rest with
  | nil => exact ⟨h i, (List.append_nil _).symm⟩
  | cons turn schedule ih =>
    have hturn := turn_of_unguarded (h turn)
    have hnext : ∀ j, ((advance threads turn).getD threads).remaining j =
        unguarded (if j = turn then (rest j).tail else rest j) := by
      intro j
      rw [(hturn j).1]
      by_cases hj : j = turn
      · rw [if_pos hj, if_pos hj, hj]
      · rw [if_neg hj, if_neg hj, h j]
    obtain ⟨hremaining, hput⟩ := ih hnext
    rw [runTurns, hremaining, hput, (hturn i).2]
    by_cases hi : i = turn
    · subst hi
      rw [if_pos rfl, if_pos rfl, List.count_cons_self]
      cases rest i with
      | nil => simp
      | cons item items => simp
    · rw [if_neg hi, if_neg hi, List.count_cons_of_ne (Ne.symm hi), List.append_nil]
      exact ⟨rfl, rfl⟩

/-- Whatever the schedule, a thread has put as many items of its block as it has had turns. -/
theorem putBy_runTurns (block : ι → List α) (schedule : List ι) (i : ι) :
    (runTurns schedule (.start fun i ↦ unguarded (block i))).putBy i =
      (block i).take (schedule.count i) :=
  (runTurns_of_remaining schedule (fun _ ↦ rfl) i).2

/-- Threads without a mutex have finished exactly when each has had enough turns for its block. -/
theorem finished_runTurns_iff (block : ι → List α) (schedule : List ι) :
    (runTurns schedule (.start fun i ↦ unguarded (block i))).Finished ↔
      ∀ i, (block i).length ≤ schedule.count i := by
  refine forall_congr' fun i ↦ ?_
  have hremaining : (Threads.start fun i ↦ unguarded (block i)).remaining = fun i ↦
    unguarded (block i) := rfl
  rw [(runTurns_of_remaining schedule (congrFun hremaining) i).1, unguarded, List.map_eq_nil_iff,
    List.drop_eq_nil_iff]

end PcmWrapper.Library
