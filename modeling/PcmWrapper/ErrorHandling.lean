import Mathlib.Data.Int.Notation
import PcmWrapper.Library.Actions

/-!
# Events, exceptions and the fatal error handler

`error_handling.cpp` sends every fatal error through `handleFatalError`, which first cleans up the
PCM instance and then calls a handler the program can replace. What happens next is up to the
handler: the default one terminates the process, one set by `setDefaultErrorHandler` may throw or
return, and after a handler that returns the code goes on behind the failed check.

An `Event` is something the modelled code does that a claim may speak about: an access to a cell of
a vector, a call to PCM, a fatal error, a line on the standard output. A vector access carries the
index and the size of the vector, and `Event.InBounds` says that the cell exists. A cell outside the
vector is undefined behaviour in the source. Here such a write changes nothing and such a read gives
zero, and the event in the trace shows it.
-/

set_option autoImplicit false
set_option relaxedAutoImplicit false

namespace PcmWrapper

open Library

/-- `PCM::ErrorCode`, what `PCM::program` returns. -/
inductive ErrorCode
  | success
  | msrAccessDenied
  | pmuBusy
  | unknownError
  deriving DecidableEq

/-- `PCM::CustomCoreEventDescription`, the programming of one counter register. -/
structure CustomCoreEventDescription where
  eventNumber : ℤ
  umaskValue : ℤ
  deriving DecidableEq

/-- The vectors whose accesses are traced. -/
inductive Storage
  | commonCounts
  | eventCounts
  | counters
  | values
  | indices
  deriving DecidableEq

/-- What the code does to the world besides its own objects. -/
inductive Event
  | read (storage : Storage) (index size : ℕ)
  | write (storage : Storage) (index size : ℕ)
  | cleanup
  | resetPMU
  | program (description : List CustomCoreEventDescription)
  | output (text : String)
  | fatalError (message : String)
  deriving DecidableEq

/-- A vector access is in bounds when its cell exists. -/
def Event.InBounds : Event → Prop
  | .read _ index size => index < size
  | .write _ index size => index < size
  | _ => True

/-- The event is a fatal error. -/
def Event.IsFatal : Event → Prop
  | .fatalError _ => True
  | _ => False

instance : DecidablePred Event.InBounds := fun event ↦ by
  cases event <;> unfold Event.InBounds <;> infer_instance

instance : DecidablePred Event.IsFatal := fun event ↦ by
  cases event <;> unfold Event.IsFatal <;> infer_instance

/-- The exceptions of the modelled code, with their texts. For a text that is up to the standard
library stands the name of the function that throws. -/
inductive Exception
  | fatal (message : String)
  | domainError (what : String)
  | invalidArgument (what : String)
  | outOfRange (what : String)
  deriving DecidableEq

/-- Actions of the modelled code. -/
abbrev Program (σ α : Type) := Action Exception Event σ α

/-- What a fatal error handler does with a message. -/
inductive HandlerOutcome
  | terminates
  | throws
  | returns
  deriving DecidableEq

/-- `g_fatalErrorHandler`, the handler in force. -/
abbrev FatalHandler := String → HandlerOutcome

/-- `defaultFatalHandler`: it prints the message and calls `std::terminate`. -/
def defaultFatalHandler : FatalHandler := fun _ ↦ .terminates

/-- The handler never returns to the code that reported the error. -/
def FatalHandler.NeverReturns (handler : FatalHandler) : Prop :=
  ∀ message, handler message ≠ .returns

theorem defaultFatalHandler_neverReturns : defaultFatalHandler.NeverReturns := by
  intro message hreturns
  exact HandlerOutcome.noConfusion hreturns

/-- The handler always returns, as the one `assert_test.cpp` installs. -/
def FatalHandler.AlwaysReturns (handler : FatalHandler) : Prop :=
  ∀ message, handler message = .returns

/-- The text a `char const*` stands for, which ends at the first null character. -/
def cString (text : String) : String :=
  String.ofList (text.toList.takeWhile (· ≠ Char.ofNat 0))

variable {σ α : Type}

/-- `handleFatalError`, which `FATAL_ERROR` expands to: `runOnFatalError` cleans up PCM, then the
handler gets the message. -/
def handleFatalError (handler : FatalHandler) (message : String) : Program σ Unit := do
  emit .cleanup
  emit (.fatalError message)
  match handler message with
  | .terminates => interrupt .terminated
  | .throws => interrupt (.thrown (.fatal message))
  | .returns => pure ()

/-- `STR_CONCAT` on two string literals, which keep their quotation marks. -/
def strConcat (message condition : String) : String :=
  "\"" ++ message ++ "\" :\"" ++ condition ++ "\""

/-- `ASSERT`, whose check the code goes on behind when the handler returns. -/
def assert (handler : FatalHandler) (holds : Bool) (message condition : String) :
    Program σ Unit :=
  if holds then pure () else handleFatalError handler (strConcat message condition)

/-- What a machine looks like when the handler is called. -/
def afterFatalError (message : String) (m : Machine Event σ) : Machine Event σ :=
  { m with trace := m.trace ++ [.cleanup, .fatalError message] }

@[simp] theorem trace_afterFatalError (message : String) (m : Machine Event σ) :
    (afterFatalError message m).trace = m.trace ++ [.cleanup, .fatalError message] := rfl

/-- The outcome of a fatal error, by what the handler does. -/
theorem run_handleFatalError (handler : FatalHandler) (message : String) (m : Machine Event σ) :
    (handleFatalError handler message).run m = match handler message with
      | .terminates => .error .terminated (afterFatalError message m)
      | .throws => .error (.thrown (.fatal message)) (afterFatalError message m)
      | .returns => .ok () (afterFatalError message m) := by
  simp only [handleFatalError, EStateM.run_bind, run_emit, List.append_assoc]
  cases handler message <;> rfl

/-- After a handler that returns, the code goes on. -/
theorem run_handleFatalError_of_returns {handler : FatalHandler} {message : String}
    (h : handler message = .returns) (m : Machine Event σ) :
    (handleFatalError handler message).run m = .ok () (afterFatalError message m) := by
  rw [run_handleFatalError, h]

/-- After a handler that does not return, the action is over. -/
theorem run_handleFatalError_of_ne_returns {handler : FatalHandler} {message : String}
    (h : handler message ≠ .returns) (m : Machine Event σ) : ∃ cause,
      (handleFatalError handler message).run m = .error cause (afterFatalError message m) := by
  rw [run_handleFatalError]
  cases hout : handler message with
  | terminates => exact ⟨_, rfl⟩
  | throws => exact ⟨_, rfl⟩
  | returns => exact absurd hout h

/-- The code goes on behind a check that passes. -/
theorem run_assert_bind_of_true {β : Type} {holds : Bool} (h : holds = true)
    (handler : FatalHandler) (message condition : String) (next : Unit → Program σ β)
    (m : Machine Event σ) :
    (assert handler holds message condition >>= next).run m = (next ()).run m := by
  rw [assert, if_pos h]
  rfl

/-- Behind a check that fails, the code goes on when the handler returns. -/
theorem run_assert_bind_of_returns {β : Type} {holds : Bool} (h : holds = false)
    {handler : FatalHandler} {message condition : String}
    (hhandler : handler (strConcat message condition) = .returns) (next : Unit → Program σ β)
    (m : Machine Event σ) : (assert handler holds message condition >>= next).run m =
      (next ()).run (afterFatalError (strConcat message condition) m) := by
  rw [assert, if_neg (by rw [h]; decide)]
  exact run_bind_of_ok (run_handleFatalError_of_returns hhandler m) next

/-- Behind a check that fails, nothing follows when the handler does not return. -/
theorem run_assert_bind_of_ne_returns {β : Type} {holds : Bool} (h : holds = false)
    {handler : FatalHandler} {message condition : String}
    (hhandler : handler (strConcat message condition) ≠ .returns) (next : Unit → Program σ β)
    (m : Machine Event σ) : (assert handler holds message condition >>= next).run m =
      .error (if handler (strConcat message condition) = .terminates then .terminated
        else .thrown (.fatal (strConcat message condition)))
        (afterFatalError (strConcat message condition) m) := by
  rw [assert, if_neg (by rw [h]; decide)]
  refine run_bind_of_error ?_ next
  rw [run_handleFatalError]
  cases hout : handler (strConcat message condition) with
  | terminates => rfl
  | throws => rfl
  | returns => exact absurd hout hhandler

/-- Whatever the handler does, a fatal error leaves the objects alone and shows in the trace. -/
@[simp] theorem after_run_handleFatalError (handler : FatalHandler) (message : String)
    (m : Machine Event σ) :
    after ((handleFatalError handler message).run m) = afterFatalError message m := by
  rw [run_handleFatalError]
  cases handler message <;> rfl

/-- What a fatal error adds to the trace touches no vector. -/
theorem inBounds_of_mem_fatalError {message : String} {event : Event}
    (hevent : event ∈ [.cleanup, .fatalError message]) : event.InBounds := by
  rcases List.mem_cons.mp hevent with heq | hmem
  · rw [heq]
    exact True.intro
  · rw [List.mem_singleton.mp hmem]
    exact True.intro

/-- A fatal error only adds to the trace. -/
theorem extends_handleFatalError (handler : FatalHandler) (message : String) :
    Extends (handleFatalError handler message : Program σ Unit) := by
  intro m
  rw [after_run_handleFatalError]
  exact m.trace.prefix_append _

/-- No fatal error has been passed over: none has been reported, or the code never goes on behind
one. -/
def NoErrorIgnored (handler : FatalHandler) (m : Machine Event σ) : Prop :=
  handler.NeverReturns ∨ ∀ event ∈ m.trace, ¬ event.IsFatal

/-- What has not been passed over later has not been passed over before. -/
theorem NoErrorIgnored.of_earlier {handler : FatalHandler} {m m' : Machine Event σ}
    (h : NoErrorIgnored handler m') (hkept : m.trace <+: m'.trace) : NoErrorIgnored handler m :=
  h.imp_right fun hclean event hevent ↦ hclean event (hkept.subset hevent)

/-- A reported fatal error behind which the code went on has been passed over. -/
theorem not_noErrorIgnored_of_mem {handler : FatalHandler} {message other : String}
    {m : Machine Event σ} (hreturns : handler other = .returns)
    (hmem : .fatalError message ∈ m.trace) : ¬ NoErrorIgnored handler m := by
  intro h
  rcases h with hnever | hclean
  · exact hnever other hreturns
  · exact hclean _ hmem True.intro

/-- The action raises a fatal error. -/
def Raises (action : Program σ α) (m : Machine Event σ) : Prop :=
  ∃ event ∈ emitted action m, event.IsFatal

instance (action : Program σ α) (m : Machine Event σ) : Decidable (Raises action m) :=
  inferInstanceAs (Decidable (∃ event ∈ emitted action m, event.IsFatal))

/-- An action raises nothing when no event it adds to the trace is a fatal error. -/
theorem not_raises_iff {action : Program σ α} {m : Machine Event σ} {events : List Event}
    (h : (after (action.run m)).trace = m.trace ++ events) :
    ¬ Raises action m ↔ ∀ event ∈ events, ¬ event.IsFatal := by
  rw [Raises, emitted_of_trace h]
  exact not_exists.trans (forall_congr' fun _ ↦ not_and)

/-- An action raises the fatal error with which its trace ends. -/
theorem raises_of_fatalError {action : Program σ α} {m : Machine Event σ} {message : String}
    (h : (after (action.run m)).trace = m.trace ++ [.cleanup, .fatalError message]) :
    Raises action m := by
  rw [Raises, emitted_of_trace h]
  exact ⟨.fatalError message, List.mem_cons_of_mem _ List.mem_cons_self, True.intro⟩

end PcmWrapper
