import PcmWrapper.DatabaseLoads
import PcmWrapper.PcmContext

/-!
# On which CPU models a measurement starts

`init` chooses four events before the program can choose its own, and it insists on them. So whether
a whole session of choosing events and starting to measure goes through is decided by the names that
`init` chooses, not by those the program asks for: `measure_succeeds_iff`. Of the databases of
the repository, only those of the Skylake models have all four names.
-/

set_option autoImplicit false
set_option relaxedAutoImplicit false

namespace PcmWrapper

open Library

/-- Initialise a context, choose events, and start to measure on a PCM that is fine. -/
def measure (handler : FatalHandler) (cpuModel : ℤ) (reader : HwCounterJsonReader)
    (names : CounterRegister → String) : Program PcmContext Unit := do
  init handler cpuModel reader
  setCounters handler names
  startMonitoring handler .success

/-- The session runs to its end without any fatal error. -/
def MeasureSucceeds (handler : FatalHandler) (cpuModel : ℤ) (reader : HwCounterJsonReader)
    (names : CounterRegister → String) : Prop :=
  ∃ final, (measure handler cpuModel reader names).run (.fresh .fresh) = .ok () final ∧
    ∀ event ∈ final.trace, ¬ event.IsFatal

/-- With events the CPU model has, a session runs to its end without any fatal error exactly when
the CPU model also has the events `init` chooses. Assumes: the CPU model has the events asked for.
-/
theorem measure_succeeds_iff (handler : FatalHandler) {cpuModel : ℤ}
    {reader : HwCounterJsonReader} {names : CounterRegister → String}
    (hnames : ∀ register, names register ∈ reader.eventNames cpuModel) :
    MeasureSucceeds handler cpuModel reader names ↔
      ∀ register, initialEvents register ∈ reader.eventNames cpuModel := by
  constructor
  · rintro ⟨final, hrun, hclean⟩
    obtain ⟨_, m₁, hinit, hrun⟩ := run_bind_eq_ok.mp hrun
    have hmem : ∀ register, names register ∈ m₁.state.counters := by
      intro register
      rw [counters_of_run_init hinit]
      exact mem_counters_initialised.mpr (hnames register)
    rw [run_bind_of_ok (run_setCounters_of_mem handler hmem),
      run_startMonitoring_success handler hmem] at hrun
    cases hrun
    -- What `init` reported is still in the trace at the end.
    have hnone : NoErrorIgnored handler m₁ :=
      .inr fun event hevent ↦ hclean event (List.mem_append_left _ hevent)
    exact (run_init_eq_ok_iff.mp ⟨hinit, hnone⟩).1
  · intro hinitial
    have hinit : (init handler cpuModel reader).run (.fresh .fresh) =
        .ok () (.fresh (initialised cpuModel reader)) :=
      And.left (run_init_eq_ok_iff.mpr ⟨hinitial, rfl⟩)
    have hmem : ∀ register, names register ∈
        (Machine.fresh (initialised cpuModel reader) : Machine Event PcmContext).state.counters :=
      fun register ↦ mem_counters_initialised.mpr (hnames register)
    have hrun : ∃ description context, (measure handler cpuModel reader names).run
        (.fresh .fresh) = .ok () ⟨context, [.program description, .output "OK\n"]⟩ := by
      rw [measure, run_bind_of_ok hinit, run_bind_of_ok (run_setCounters_of_mem handler hmem),
        run_startMonitoring_success handler hmem]
      exact ⟨_, _, rfl⟩
    obtain ⟨description, context, hrun⟩ := hrun
    refine ⟨_, hrun, fun event hevent ↦ ?_⟩
    rcases List.mem_cons.mp hevent with heq | hmem
    · rw [heq]
      exact not_false
    · rw [List.mem_singleton.mp hmem]
      exact not_false

/-- Skylake has the events `init` chooses, so that any of its events can be measured. -/
theorem measure_succeeds_skylake :
    MeasureSucceeds defaultFatalHandler 94 (loadedReader excerptFiles [skylakeLoad])
      fun _ ↦ "UOPS_EXECUTED.CYCLES_GE_2_UOPS_EXEC" :=
  (measure_succeeds_iff defaultFatalHandler (by decide +kernel)).mpr (by decide +kernel)

/-- Haswell has no event of the name `init` asks for first, so that no session succeeds on it. -/
theorem not_measure_succeeds_haswell :
    let reader := loadedReader excerptFiles [haswellLoad]
    (∀ _register : CounterRegister, "MEM_LOAD_UOPS_RETIRED.L1_MISS" ∈ reader.eventNames 60) ∧
      ¬ MeasureSucceeds defaultFatalHandler 60 reader fun _ ↦ "MEM_LOAD_UOPS_RETIRED.L1_MISS" := by
  intro reader
  have hmem : "MEM_LOAD_UOPS_RETIRED.L1_MISS" ∈ reader.eventNames 60 := by decide +kernel
  have hfails : returned ((measure defaultFatalHandler 60 reader
      fun _ ↦ "MEM_LOAD_UOPS_RETIRED.L1_MISS").run (.fresh .fresh)) = false := by
    decide +kernel
  refine ⟨fun _ ↦ hmem, fun ⟨final, hrun, _⟩ ↦ ?_⟩
  rw [hrun, returned] at hfails
  cases hfails

end PcmWrapper
