import Mathlib.Data.Fintype.Defs
import Mathlib.Data.Multiset.DershowitzManna
import Mathlib.Order.Lattice.Nat
import Os2Labs.Conc.Guarded

/-!
# What happens whatever is scheduled

`Inevitable step P s`: from `s`, whichever possible step is taken each time, `P` holds
after finitely many of them, and until then some step is possible.  No fairness is assumed,
so this is for systems whose threads block and do not spin.

* `inevitable_of_measure` is the rule of the measure.
* `inevitable_of_ranks` is for finitely many threads with a rank each.  A step takes its thread
  down and may take others up, but not as far up as its thread has been.
* `Prog.depth` measures the code of a thread that is inside; `Guarded.bounded` says that
  this makes sense when the code of every call is bounded.
-/

namespace Conc

section Inevitable

variable {σ ε β : Type*} {step : σ → ε → Option σ} {P I : σ → Prop}

/-- Whatever is scheduled, `P` holds after finitely many steps. -/
inductive Inevitable (step : σ → ε → Option σ) (P : σ → Prop) : σ → Prop
  | now {s : σ} (holds : P s) : Inevitable step P s
  | later {s : σ} (goes : ∃ e s', step s e = some s')
      (after : ∀ e s', step s e = some s' → Inevitable step P s') : Inevitable step P s

/-- **The rule of the measure.**  Where `P` does not hold some step is possible, and every step
keeps the invariant and establishes `P` or decreases the measure. -/
theorem inevitable_of_measure {r : β → β → Prop} (wf : WellFounded r) (measure : σ → β)
    (goes : ∀ s, I s → ¬ P s → ∃ e s', step s e = some s')
    (keeps : ∀ s e s', I s → step s e = some s' → I s')
    (decreases : ∀ s e s', I s → ¬ P s → step s e = some s' → P s' ∨ r (measure s') (measure s))
    {s : σ} (start : I s) : Inevitable step P s := by
  generalize at_s : measure s = b
  induction b using wf.induction generalizing s with
  | _ b ih =>
    by_cases holds : P s
    · exact .now holds
    · refine .later (goes s start holds) ?_
      intro e s' moved
      rcases decreases s e s' start holds moved with there | less
      · exact .now there
      · rw [at_s] at less
        exact ih _ less (keeps s e s' start moved) rfl

/-- What an invariant says may be added to what is inevitable, and a consequence is inevitable. -/
theorem Inevitable.mono {Q : σ → Prop} {s : σ} (inevitable : Inevitable step P s)
    (keeps : ∀ s e s', I s → step s e = some s' → I s') (implies : ∀ s, I s → P s → Q s)
    (start : I s) : Inevitable step Q s := by
  induction inevitable with
  | now holds => exact .now (implies _ start holds)
  | later goes after ih =>
    exact .later goes fun e s' moved => ih e s' moved (keeps _ e s' start moved)

/-- One thing after another. -/
theorem Inevitable.trans {Q : σ → Prop} {s : σ} (first : Inevitable step P s)
    (keeps : ∀ s e s', I s → step s e = some s' → I s')
    (next : ∀ s, I s → P s → Inevitable step Q s) (start : I s) : Inevitable step Q s := by
  induction first with
  | now holds => exact next _ start holds
  | later goes after ih =>
    exact .later goes fun e s' moved => ih e s' moved (keeps _ e s' start moved)

/-- One rank goes down, and the others stay where they are or below it. -/
theorem ranks_lt {Tid : Type*} [Fintype Tid] {f g : Tid → Nat} {t : Tid} (down : g t < f t)
    (others : ∀ u, u ≠ t → g u = f u ∨ g u < f t) :
    (Finset.univ.val.map g).IsDershowitzMannaLT (Finset.univ.val.map f) := by
  classical
  let stays : Tid → Prop := fun u => u ≠ t ∧ g u = f u
  let fixed := Finset.univ.val.filter stays
  let moved := Finset.univ.val.filter fun u => ¬ stays u
  have whole : fixed + moved = Finset.univ.val := Multiset.filter_add_not _ _
  have t_moved : t ∈ moved :=
    Multiset.mem_filter.mpr ⟨Finset.mem_univ t, fun same => same.1 rfl⟩
  refine ⟨fixed.map f, moved.map g, moved.map f, ?_, ?_, ?_, ?_⟩
  · intro empty
    have there := Multiset.mem_map_of_mem f t_moved
    rw [empty] at there
    exact Multiset.notMem_zero _ there
  · rw [← whole, Multiset.map_add]
    congr 1
    apply Multiset.map_congr rfl
    intro u member
    exact (Multiset.mem_filter.mp member).2.2
  · rw [← whole, Multiset.map_add]
  · intro y member
    obtain ⟨u, changed, rfl⟩ := Multiset.mem_map.mp member
    refine ⟨f t, Multiset.mem_map_of_mem f t_moved, ?_⟩
    have changed := (Multiset.mem_filter.mp changed).2
    by_cases who : u = t
    · rw [who]
      exact down
    · rcases others u who with same | less
      · exact (changed ⟨who, same⟩).elim
      · exact less

/-- **The rule of the ranks**, which the invariant gives to the threads of a state.  Every step
takes some thread down, and takes no other thread up further than below where that one was. -/
theorem inevitable_of_ranks {Tid : Type*} [Fintype Tid] {I : σ → (Tid → Nat) → Prop}
    (goes : ∀ s f, I s f → ¬ P s → ∃ e s', step s e = some s')
    (decreases : ∀ s f e s', I s f → step s e = some s' → ∃ g t, I s' g ∧ g t < f t ∧
      ∀ u, u ≠ t → g u = f u ∨ g u < f t)
    {s : σ} {f : Tid → Nat} (start : I s f) : Inevitable step P s := by
  have wf : WellFounded (Multiset.IsDershowitzMannaLT (α := Nat)) :=
    Multiset.wellFounded_isDershowitzMannaLT
  generalize ranks : Finset.univ.val.map f = m
  induction m using wf.induction generalizing s f with
  | _ m ih =>
    by_cases holds : P s
    · exact .now holds
    · refine .later (goes s f start holds) ?_
      intro e s' moved
      obtain ⟨g, t, keeps, down, others⟩ := decreases s f e s' start moved
      exact ih _ (ranks ▸ ranks_lt down others) keeps rfl

end Inevitable

/-! ## The code that is left -/

namespace Prog

variable {S : Signature} {α β : Type}

/-- The program makes at most so many accesses. -/
def Within : Prog S α → Nat → Prop
  | .ret _, _ => True
  | .op _ _, 0 => False
  | .op _ k, n + 1 => ∀ r, (k r).Within n

theorem Within.mono {p : Prog S α} {n m : Nat} (within : p.Within n) (le : n ≤ m) :
    p.Within m := by
  induction p generalizing n m with
  | ret a => trivial
  | op o k ih =>
    cases n with
    | zero => exact within.elim
    | succ n =>
      obtain ⟨m, rfl⟩ : ∃ l, m = l + 1 := ⟨m - 1, by omega⟩
      intro r
      exact ih r (within r) (Nat.le_of_succ_le_succ le)

theorem Within.bind {p : Prog S α} {f : α → Prog S β} {n m : Nat} (first : p.Within n)
    (rest : ∀ a, (f a).Within m) : (p >>= f).Within (n + m) := by
  induction p generalizing n with
  | ret a => exact (rest a).mono (Nat.le_add_left m n)
  | op o k ih =>
    cases n with
    | zero => exact first.elim
    | succ n =>
      rw [Nat.succ_add]
      intro r
      exact ih r (first r)

theorem within_access (o : S.Op) : (access o).Within 1 := fun _ => trivial

def Bounded (p : Prog S α) : Prop := ∃ n, p.Within n

/-- The most accesses the program can make. -/
noncomputable def depth (p : Prog S α) : Nat := sInf {n | p.Within n}

theorem Bounded.next {o : S.Op} {k : S.Res o → Prog S α} (bounded : (op o k).Bounded)
    (r : S.Res o) : (k r).Bounded := by
  obtain ⟨n, within⟩ := bounded
  cases n with
  | zero => exact within.elim
  | succ n => exact ⟨n, within r⟩

/-- An access makes a program less deep. -/
theorem Bounded.depth_lt {o : S.Op} {k : S.Res o → Prog S α} (bounded : (op o k).Bounded)
    (r : S.Res o) : (k r).depth < (op o k).depth := by
  have within : (op o k).Within (op o k).depth := Nat.sInf_mem bounded
  cases at_depth : (op o k).depth with
  | zero =>
    rw [at_depth] at within
    exact within.elim
  | succ n =>
    rw [at_depth] at within
    exact Nat.lt_succ_of_le (Nat.sInf_le (within r))

end Prog

namespace Guarded

variable {S : Signature} {σ χ Call Reply η Tid : Type} [DecidableEq Tid]
  {O : Object S σ χ Call Reply η}

/-- What a thread inside has left to do is bounded when every call is. -/
theorem bounded (calls : ∀ c, (O.body c).Bounded) {s₀ s : State S σ Call Reply η Tid}
    (vacant : s₀.Vacant) (reached : Relation.ReflTransGen (Step O) s₀ s) (t : Tid) (c : Call)
    (h : η)
    (p : Prog S Reply) (inside : s.crit t = some (c, h, p)) : p.Bounded := by
  induction reached generalizing t c h p with
  | refl =>
    rw [vacant t] at inside
    cases inside
  | tail _ moved ih =>
    cases moved with
    | enter u c' vacant' =>
      by_cases same : t = u
      · subst same
        simp only [Function.update_self, Option.some.injEq, Prod.mk.injEq] at inside
        obtain ⟨-, -, rfl⟩ := inside
        exact calls c'
      · simp only [Function.update_of_ne same] at inside
        exact ih t c h p inside
    | @access u c' h' o k x r m there done =>
      by_cases same : t = u
      · subst same
        simp only [Function.update_self, Option.some.injEq, Prod.mk.injEq] at inside
        obtain ⟨-, -, rfl⟩ := inside
        exact (ih t c' h' _ there).next r
      · simp only [Function.update_of_ne same] at inside
        exact ih t c h p inside
    | @leave u c' h' r there =>
      by_cases same : t = u
      · subst same
        simp only [Function.update_self] at inside
        cases inside
      · simp only [Function.update_of_ne same] at inside
        exact ih t c h p inside

end Guarded

end Conc
