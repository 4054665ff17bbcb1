import Mathlib.Data.List.Basic

/-!
# Lib.Logged

Computations that keep a log of what they do on the way: the memory they read, the buffers they
fill. `All P x` says that every entry of the log satisfies `P`; of a sequence of computations it
holds when it holds of each part, run on what the parts before it returned.
-/

namespace Lib

open List

structure Logged (ε α : Type) where
  val : α
  log : List ε

namespace Logged

variable {ε α β : Type}

instance : Monad (Logged ε) where
  pure a := ⟨a, []⟩
  bind x f := ⟨(f x.val).val, x.log ++ (f x.val).log⟩

def note (e : ε) (a : α) : Logged ε α := ⟨a, [e]⟩

@[simp] theorem val_pure (a : α) : (pure a : Logged ε α).val = a := rfl
@[simp] theorem log_pure (a : α) : (pure a : Logged ε α).log = [] := rfl
@[simp] theorem val_note (e : ε) (a : α) : (note e a).val = a := rfl
@[simp] theorem log_note (e : ε) (a : α) : (note e a).log = [e] := rfl

@[simp] theorem val_bind (x : Logged ε α) (f : α → Logged ε β) :
    (x >>= f).val = (f x.val).val := rfl

@[simp] theorem log_bind (x : Logged ε α) (f : α → Logged ε β) :
    (x >>= f).log = x.log ++ (f x.val).log := rfl

@[simp] theorem val_map (x : Logged ε α) (f : α → β) : (f <$> x).val = f x.val := rfl

@[simp] theorem log_map (x : Logged ε α) (f : α → β) : (f <$> x).log = x.log := by
  change x.log ++ [] = x.log
  exact append_nil _

@[simp] theorem val_ite {c : Prop} [Decidable c] (x y : Logged ε α) :
    (if c then x else y).val = if c then x.val else y.val := apply_ite _ _ _ _

def All (P : ε → Prop) (x : Logged ε α) : Prop := ∀ e ∈ x.log, P e

variable {P Q : ε → Prop}

@[simp] theorem all_pure (a : α) : (pure a : Logged ε α).All P := by
  intro e he; cases he

@[simp] theorem all_note (e : ε) (a : α) : (note e a).All P ↔ P e := by
  simp [All]

@[simp] theorem all_bind (x : Logged ε α) (f : α → Logged ε β) :
    (x >>= f).All P ↔ x.All P ∧ (f x.val).All P := by
  simp only [All, log_bind, mem_append]
  constructor
  · intro h; exact ⟨fun e he => h e (.inl he), fun e he => h e (.inr he)⟩
  · intro h e he; exact he.elim (h.1 e) (h.2 e)

@[simp] theorem all_map (x : Logged ε α) (f : α → β) : (f <$> x).All P ↔ x.All P := by
  simp [All]

theorem all_ite {c : Prop} [Decidable c] (x y : Logged ε α) :
    (if c then x else y).All P ↔ (c → x.All P) ∧ (¬ c → y.All P) := by
  by_cases hc : c <;> simp [hc]

/-- Go on with what `x` found; `none` stands for an early return. -/
def whenSome (x : Logged ε (Option α)) (f : α → Logged ε (Option β)) : Logged ε (Option β) := do
  match ← x with
  | none => pure none
  | some a => f a

@[simp] theorem val_whenSome (x : Logged ε (Option α)) (f : α → Logged ε (Option β)) :
    (whenSome x f).val = x.val.bind fun a => (f a).val := by
  simp only [whenSome, val_bind]
  cases x.val <;> rfl

@[simp] theorem all_whenSome (x : Logged ε (Option α)) (f : α → Logged ε (Option β)) :
    (whenSome x f).All P ↔ x.All P ∧ ∀ a, x.val = some a → (f a).All P := by
  simp only [whenSome, all_bind]
  cases x.val <;> simp

/-- `for (i = 0; i < n; i++)`, each pass given what the one before it left. -/
def fold (body : Nat → α → Logged ε α) (a : α) : Nat → Logged ε α
  | 0 => pure a
  | n + 1 => do
    let a ← fold body a n
    body n a

theorem all_fold {body : Nat → α → Logged ε α} {a : α} {n : Nat} :
    (fold body a n).All P ↔ ∀ i < n, (body i (fold body a i).val).All P := by
  induction n with
  | zero => simp [fold]
  | succ n ih =>
    rw [fold, all_bind, ih]
    constructor
    · rintro ⟨hrest, hlast⟩ i hi
      by_cases hin : i = n
      · exact hin ▸ hlast
      · exact hrest i (by omega)
    · exact fun h => ⟨fun i hi => h i (by omega), h n (by omega)⟩

theorem val_fold (body : Nat → α → Logged ε α) (a : α) (n : Nat) :
    (fold body a n).val = n.fold (fun i _ a => (body i a).val) a := by
  induction n with
  | zero => rfl
  | succ n ih => rw [fold, val_bind, ih, Nat.fold_succ]

/-- A loop over `n` indices from `i` on that returns at the first `body` with a result. -/
def search (body : Nat → Logged ε (Option α)) : Nat → Nat → Logged ε (Option α)
  | 0, _ => pure none
  | n + 1, i => do
    match ← body i with
    | some a => pure (some a)
    | none => search body n (i + 1)

theorem All.search {body : Nat → Logged ε (Option α)} :
    ∀ {n i : Nat}, (∀ j, i ≤ j → j < i + n → (body j).All P) → (search body n i).All P := by
  intro n
  induction n with
  | zero => intro i _; exact all_pure none
  | succ n ih =>
    intro i h
    rw [Logged.search, all_bind]
    refine ⟨h i (Nat.le_refl i) (by omega), ?_⟩
    cases (body i).val with
    | some a => exact all_pure (some a)
    | none => exact ih fun j hij hj => h j (by omega) (by omega)

theorem val_search (body : Nat → Logged ε (Option α)) (n i : Nat) :
    (search body n i).val = (List.range' i n).findSome? fun j => (body j).val := by
  induction n generalizing i with
  | zero => rfl
  | succ n ih =>
    rw [search, val_bind, range'_succ, findSome?_cons]
    cases (body i).val with
    | some a => rfl
    | none => exact ih (i + 1)

theorem val_search_eq_some {body : Nat → Logged ε (Option α)} {a : α} {n i : Nat}
    (h : (search body n i).val = some a) : ∃ j, (body j).val = some a := by
  rw [val_search] at h
  obtain ⟨j, -, hj⟩ := exists_of_findSome?_eq_some h
  exact ⟨j, hj⟩

end Logged
end Lib
