import PcmWrapper.Library.Actions

/-!
# What holds throughout a run

`Throughout` says of a run of calls that something holds of every machine the run reaches and
something else of every call it makes, where an account that is kept beside the run tells what has
happened so far. A call that ends the process is the last one.

A run may need a condition on its calls for that. `throughout_iff` is the rule that shows a
condition to be exact: an invariant that every allowed call keeps, and for every call that is not
allowed a failure that shows at once, in the call or in the machine it leaves behind.
-/

set_option autoImplicit false
set_option relaxedAutoImplicit false

namespace PcmWrapper.Library

variable {χ ε σ α κ ρ : Type} {perform : κ → Action χ ε σ α}
  {next : Machine ε σ → ρ → κ → ρ} {always : Machine ε σ → ρ → Prop}
  {good : Machine ε σ → ρ → κ → Prop}

/-- At every machine of the run `always` holds, and `good` of every call made there; `next` keeps
the account. -/
def Throughout (perform : κ → Action χ ε σ α) (next : Machine ε σ → ρ → κ → ρ)
    (always : Machine ε σ → ρ → Prop) (good : Machine ε σ → ρ → κ → Prop) :
    List κ → Machine ε σ → ρ → Prop
  | [], m, account => always m account
  | call :: calls, m, account => always m account ∧ good m account call ∧
      ∀ m', survive ((perform call).run m) = .ok () m' →
        Throughout perform next always good calls m' (next m account call)

/-- What holds throughout a run holds where it starts. -/
theorem Throughout.start {calls : List κ} {m : Machine ε σ} {account : ρ}
    (h : Throughout perform next always good calls m account) : always m account := by
  cases calls with
  | nil => exact h
  | cons call calls => exact h.1

/-- What holds throughout a run holds where it ends. -/
theorem Throughout.final {calls : List κ} {m final : Machine ε σ} {account : ρ}
    (h : Throughout perform next always good calls m account)
    (hrun : (runCalls perform calls).run m = .ok () final) :
    ∃ reached, always final reached := by
  induction calls generalizing m account with
  | nil =>
    rw [run_runCalls_nil] at hrun
    cases hrun
    exact ⟨account, h⟩
  | cons call calls ih =>
    obtain ⟨m', hcall, hrest⟩ := run_runCalls_cons_eq_ok.mp hrun
    exact ih (h.2.2 m' hcall) hrest

variable (invariant : Machine ε σ → ρ → Prop) (allowed : Machine ε σ → ρ → κ → Prop)
  (condition : List κ → ρ → Prop)

/-- A run in which every call is allowed keeps the invariant and what follows from it. -/
theorem throughout_of_condition
    (halways : ∀ m account, invariant m account → always m account)
    (hgood : ∀ m account call, invariant m account → allowed m account call →
      good m account call)
    (hkeep : ∀ m account call m', invariant m account → allowed m account call →
      survive ((perform call).run m) = .ok () m' → invariant m' (next m account call))
    (hcondition : ∀ m account call calls, invariant m account →
      condition (call :: calls) account → allowed m account call ∧
        ∀ m', survive ((perform call).run m) = .ok () m' →
          condition calls (next m account call))
    {calls : List κ} {m : Machine ε σ} {account : ρ} (hm : invariant m account)
    (hcalls : condition calls account) :
    Throughout perform next always good calls m account := by
  induction calls generalizing m account with
  | nil => exact halways m account hm
  | cons call calls ih =>
    obtain ⟨hallowed, hrest⟩ := hcondition m account call calls hm hcalls
    refine ⟨halways m account hm, hgood m account call hm hallowed, fun m' hcall ↦ ?_⟩
    exact ih (hkeep m account call m' hm hallowed hcall) (hrest m' hcall)

/-- Calls that are allowed keep an invariant, and a call that is not allowed is itself bad or leaves
a bad machine behind. -/
theorem throughout_iff
    (halways : ∀ m account, invariant m account → always m account)
    (hgood : ∀ m account call, invariant m account → allowed m account call →
      good m account call)
    (hkeep : ∀ m account call m', invariant m account → allowed m account call →
      survive ((perform call).run m) = .ok () m' → invariant m' (next m account call))
    (hbad : ∀ m account call, invariant m account → ¬ allowed m account call →
      good m account call → ∃ m', survive ((perform call).run m) = .ok () m' ∧
        ¬ always m' (next m account call))
    (hnil : ∀ m account, invariant m account → condition [] account)
    (hcons : ∀ m account call calls, invariant m account →
      (condition (call :: calls) account ↔ allowed m account call ∧
        ∀ m', survive ((perform call).run m) = .ok () m' →
          condition calls (next m account call)))
    {calls : List κ} {m : Machine ε σ} {account : ρ} (hm : invariant m account) :
    Throughout perform next always good calls m account ↔ condition calls account := by
  constructor
  · intro h
    induction calls generalizing m account with
    | nil => exact hnil m account hm
    | cons call calls ih =>
      obtain ⟨_, hcall, hrest⟩ := h
      have hallowed : allowed m account call := by
        by_contra hnot
        obtain ⟨m', hsurvived, hfailed⟩ := hbad m account call hm hnot hcall
        exact hfailed (hrest m' hsurvived).start
      refine (hcons m account call calls hm).mpr ⟨hallowed, fun m' hsurvived ↦ ?_⟩
      exact ih (hkeep m account call m' hm hallowed hsurvived) (hrest m' hsurvived)
  · exact throughout_of_condition invariant allowed condition halways hgood hkeep
      (fun m account call calls hinv ↦ (hcons m account call calls hinv).mp) hm

end PcmWrapper.Library
