import Mathlib.Data.List.Basic
import Mathlib.Data.List.Induction

/-!
# Lib.History

States that keep a log, newest entry first, and what holds between two of them as long as the log
shows nothing unwanted.
-/

namespace Lib

open List

section History

variable {σ ε : Type} {log : σ → List ε} {pre mid fin : σ → Prop} {ok : ε → Prop}
  {post : σ → List ε → σ → Prop} {w w' w'' : σ}

/-- From `w` to `w'` the log only grew. If `pre` holds of `w` and all new entries are `ok`, then `fin`
holds of `w'`, and `post` of the new entries. -/
def Guarded (log : σ → List ε) (pre fin : σ → Prop) (ok : ε → Prop) (post : σ → List ε → σ → Prop)
    (w w' : σ) : Prop :=
  ∃ new, log w' = new ++ log w ∧ (pre w → (∀ e ∈ new, ok e) → fin w' ∧ post w new w')

theorem Guarded.of_log_eq (hlog : log w' = log w) (h : pre w → fin w' ∧ post w [] w') :
    Guarded log pre fin ok post w w' :=
  ⟨[], hlog, fun hp _ => h hp⟩

theorem Guarded.of_cons {e : ε} (hlog : log w' = e :: log w)
    (h : pre w → ok e → fin w' ∧ post w [e] w') : Guarded log pre fin ok post w w' :=
  ⟨[e], hlog, fun hp hok => h hp (hok e (mem_singleton_self e))⟩

theorem Guarded.trans
    (hpost : ∀ {w w' w'' new new'}, post w new w' → post w' new' w'' → post w (new' ++ new) w'')
    (h1 : Guarded log pre mid ok post w w') (h2 : Guarded log mid fin ok post w' w'') :
    Guarded log pre fin ok post w w'' := by
  obtain ⟨new, hlog, h⟩ := h1
  obtain ⟨new', hlog', h'⟩ := h2
  refine ⟨new' ++ new, by rw [hlog', hlog, append_assoc], fun hp hok => ?_⟩
  obtain ⟨hp', hpost1⟩ := h hp fun e he => hok e (mem_append_right _ he)
  obtain ⟨hp'', hpost2⟩ := h' hp' fun e he => hok e (mem_append_left _ he)
  exact ⟨hp'', hpost hpost1 hpost2⟩

theorem take_log {new : List ε} (hlog : log w' = new ++ log w) :
    (log w').take ((log w').length - (log w).length) = new := by
  rw [hlog, length_append, Nat.add_sub_cancel]
  exact take_left

end History

section Splits

variable {α : Type} {l : List α} {a : α}

theorem forall_split_concat {P : List α → α → Prop} :
    (∀ pre b post, l ++ [a] = pre ++ b :: post → P pre b) ↔
      (∀ pre b post, l = pre ++ b :: post → P pre b) ∧ P l a := by
  constructor
  · intro h
    exact ⟨fun pre b post heq => h pre b (post ++ [a]) (by simp [heq]), h l a [] rfl⟩
  · rintro ⟨h, ha⟩ pre b post heq
    rcases eq_nil_or_concat post with rfl | ⟨post, c, rfl⟩
    · obtain ⟨rfl, hb⟩ := append_inj' heq rfl
      cases hb
      exact ha
    · rw [concat_eq_append, ← cons_append, ← append_assoc] at heq
      exact h pre b post (append_inj' heq rfl).1

theorem forall_split_cons {P : List α → α → Prop} :
    (∀ new b old, a :: l = new ++ b :: old → P old b) ↔
      (∀ new b old, l = new ++ b :: old → P old b) ∧ P l a := by
  constructor
  · intro h
    exact ⟨fun new b old heq => h (a :: new) b old (by rw [heq]; rfl), h [] a l rfl⟩
  · rintro ⟨h, ha⟩ new b old heq
    cases new with
    | nil =>
      cases heq
      exact ha
    | cons c new => exact h new b old (List.cons.inj heq).2

end Splits

section Runs

variable {σ ε : Type} {step : σ → ε → σ} {Inv Post : σ → Prop} {Legal Good : σ → ε → Prop} {s : σ}

/-- An invariant that the good steps keep and the others break: in a run of legal steps the promise
it makes holds in every state exactly when all steps are good. -/
theorem promise_iff_good (hinit : Inv s) (hpost : ∀ s, Inv s → Post s)
    (hstep : ∀ s e, Inv s → Legal s e →
      (Good s e → Inv (step s e)) ∧ (¬ Good s e → ¬ Post (step s e)))
    (es : List ε) (hlegal : ∀ pre e post, es = pre ++ e :: post → Legal (pre.foldl step s) e) :
    (∀ pre post, es = pre ++ post → Post (pre.foldl step s)) ↔
      ∀ pre e post, es = pre ++ e :: post → Good (pre.foldl step s) e := by
  suffices hboth : ((∀ pre e post, es = pre ++ e :: post → Good (pre.foldl step s) e) ↔
      ∀ pre post, es = pre ++ post → Post (pre.foldl step s)) ∧
      ((∀ pre e post, es = pre ++ e :: post → Good (pre.foldl step s) e) →
        Inv (es.foldl step s)) from hboth.1.symm
  induction es using List.reverseRecOn with
  | nil =>
    refine ⟨⟨fun _ pre post heq => ?_, fun _ pre e post heq => by simp at heq⟩, fun _ => hinit⟩
    obtain rfl : pre = [] := (append_eq_nil_iff.mp heq.symm).1
    exact hpost _ hinit
  | append_singleton es e ih =>
    obtain ⟨hlegal, hlast⟩ := forall_split_concat.mp hlegal
    obtain ⟨ihiff, ihinv⟩ := ih hlegal
    rw [forall_split_concat, foldl_concat]
    have hnext := fun hgood => hstep _ e (ihinv hgood) hlast
    refine ⟨⟨?_, ?_⟩, ?_⟩
    · rintro ⟨hgood, he⟩ pre post heq
      rcases eq_nil_or_concat post with rfl | ⟨post, e', rfl⟩
      · rw [append_nil] at heq
        rw [← heq, foldl_concat]
        exact hpost _ ((hnext hgood).1 he)
      · rw [concat_eq_append, ← append_assoc] at heq
        exact ihiff.mp hgood pre post (append_inj' heq rfl).1
    · intro hall
      have hgood := ihiff.mpr fun pre post heq => hall pre (post ++ [e]) (by simp [heq])
      refine ⟨hgood, ?_⟩
      by_contra he
      have hlast := hall (es ++ [e]) [] (by simp)
      rw [foldl_concat] at hlast
      exact (hnext hgood).2 he hlast
    · rintro ⟨hgood, he⟩
      exact (hnext hgood).1 he

/-- Steps that do what they should exactly when they are good, and then keep the invariant: all steps
of a run do what they should exactly when all of them are good. -/
theorem steps_iff_good {Does : σ → ε → Prop} (hinit : Inv s)
    (hiff : ∀ s e, Inv s → (Does s e ↔ Good s e))
    (hkeep : ∀ s e, Inv s → Does s e → Inv (step s e)) (es : List ε) :
    (∀ pre e post, es = pre ++ e :: post → Does (pre.foldl step s) e) ↔
      ∀ pre e post, es = pre ++ e :: post → Good (pre.foldl step s) e := by
  suffices hboth : ((∀ pre e post, es = pre ++ e :: post → Does (pre.foldl step s) e) ↔
      ∀ pre e post, es = pre ++ e :: post → Good (pre.foldl step s) e) ∧
      ((∀ pre e post, es = pre ++ e :: post → Does (pre.foldl step s) e) →
        Inv (es.foldl step s)) from hboth.1
  induction es using List.reverseRecOn with
  | nil => exact ⟨iff_of_true (fun pre e post heq => by simp at heq) fun pre e post heq => by
      simp at heq, fun _ => hinit⟩
  | append_singleton es e ih =>
    obtain ⟨ihiff, ihinv⟩ := ih
    rw [forall_split_concat, forall_split_concat, foldl_concat]
    constructor
    · constructor
      · rintro ⟨hdoes, he⟩
        exact ⟨ihiff.mp hdoes, (hiff _ e (ihinv hdoes)).mp he⟩
      · rintro ⟨hgood, he⟩
        have hdoes := ihiff.mpr hgood
        exact ⟨hdoes, (hiff _ e (ihinv hdoes)).mpr he⟩
    · rintro ⟨hdoes, he⟩
      exact hkeep _ e (ihinv hdoes) he

end Runs

end Lib
