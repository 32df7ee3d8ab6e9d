import Mathlib.Logic.Function.Basic
import Os2Labs.Conc.History

/-!
# Client programs of a shared object

A thread that uses a shared object decides its next call from a private state
and updates that state with each reply; between calls it touches nothing shared.
`Follows cl k₀ log k` says that the threads, started in the private states `k₀`,
have made the calls of `log` and are now in `k`.
-/

namespace Conc

variable {κ Call Reply Tid : Type}

/-- What a client may call next, and what it does with the reply. -/
structure Client (κ Call Reply : Type) where
  calls : κ → Call → Bool
  returns : κ → Call → Reply → κ

/-- The client that may make any call. -/
def Client.any : Client Unit Call Reply where
  calls _ _ := true
  returns _ _ _ := ()

inductive Follows [DecidableEq Tid] (cl : Client κ Call Reply) (k₀ : Tid → κ) :
    List (Done Tid Call Reply) → (Tid → κ) → Prop
  | nil : Follows cl k₀ [] k₀
  | snoc {log : List (Done Tid Call Reply)} {k : Tid → κ} (before : Follows cl k₀ log k)
      (t : Tid) (c : Call) (r : Reply) (allowed : cl.calls (k t) c = true) :
      Follows cl k₀ (log ++ [⟨t, c, r⟩]) (Function.update k t (cl.returns (k t) c r))

end Conc
