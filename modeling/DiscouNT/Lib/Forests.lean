import Mathlib.Data.List.Nodup
import Mathlib.Data.List.Perm.Subperm

/-!
# Lib.Forests

Forests that are stored in cells, in two ways: each cell has a name and says the name of its parent,
or each has links to its parent, its first child and its next sibling. What is below a name, and what
becomes of it when cells are removed; what an ordered forest says about the cells it is stored in, and
what storing into one or two of the cells does to the forest.
-/

namespace Lib

section Below

variable {α κ : Type} {alive alive' : α → Prop} {name name' parent parent' : α → κ} {k : κ} {i j w : α}
  {gone : α → Prop}

inductive Below (alive : α → Prop) (name parent : α → κ) (k : κ) : α → Prop where
  | self {i : α} (hi : alive i) (hk : name i = k) : Below alive name parent k i
  | child {i j : α} (hi : alive i) (hj : Below alive name parent k j) (hp : parent i = name j) :
      Below alive name parent k i

def Ranked (alive : α → Prop) (name parent : α → κ) : Prop :=
  ∃ rank : α → Nat, ∀ i j, alive i → alive j → parent i = name j → rank j < rank i

theorem Below.isAlive (h : Below alive name parent k i) : alive i := by
  cases h with
  | self hi => exact hi
  | child hi => exact hi

/-- The cells of `alive'` are cells of `alive`, as they were. -/
def Within (alive alive' : α → Prop) (name name' parent parent' : α → κ) : Prop :=
  ∀ i, alive' i → alive i ∧ name' i = name i ∧ parent' i = parent i

theorem Below.within (hl : Within alive alive' name name' parent parent')
    (h : Below alive' name' parent' k i) : Below alive name parent k i := by
  induction h with
  | @self i hi hk =>
    obtain ⟨hi, hname, -⟩ := hl i hi
    exact .self hi (hname.symm.trans hk)
  | @child i j hi hj hp ih =>
    obtain ⟨hi, -, hparent⟩ := hl i hi
    exact .child hi ih (hparent.symm.trans (hp.trans (hl j hj.isAlive).2.1))

theorem Ranked.within (hl : Within alive alive' name name' parent parent')
    (h : Ranked alive name parent) : Ranked alive' name' parent' := by
  obtain ⟨rank, hrank⟩ := h
  refine ⟨rank, fun i j hi hj hp => ?_⟩
  obtain ⟨hi, -, hparent⟩ := hl i hi
  obtain ⟨hj, hname, -⟩ := hl j hj
  exact hrank i j hi hj (hparent.symm.trans (hp.trans hname))

theorem below_iff_children (hdist : ∀ i j, alive i → alive j → name i = name j → i = j)
    (hw : alive w) (hk : name w = k) :
    Below alive name parent k i ↔
      i = w ∨ ∃ j, alive j ∧ parent j = k ∧ Below alive name parent (name j) i := by
  constructor
  · intro h
    induction h with
    | self hi hik => exact .inl (hdist _ _ hi hw (hik.trans hk.symm))
    | @child i j hi hj hp ih =>
      rcases ih with rfl | ⟨c, hc, hpc, hbelow⟩
      · exact .inr ⟨i, hi, hp.trans hk, .self hi rfl⟩
      · exact .inr ⟨c, hc, hpc, .child hi hbelow hp⟩
  · rintro (rfl | ⟨j, hj, hpj, hbelow⟩)
    · exact .self hw hk
    · induction hbelow with
      | @self i hi hij =>
        obtain rfl := hdist _ _ hi hj hij
        exact .child hi (.self hw hk) (hpj.trans hk.symm)
      | child hi _ hp ih => exact .child hi ih hp

theorem Ranked.not_below (hr : Ranked alive name parent)
    (hdist : ∀ i j, alive i → alive j → name i = name j → i = j) (hw : alive w) (hj : alive j)
    (hp : parent j = name w) : ¬ Below alive name parent (name j) w := by
  obtain ⟨rank, hrank⟩ := hr
  have hle : ∀ i, Below alive name parent (name j) i → rank j ≤ rank i := by
    intro i h
    induction h with
    | self hi hk => exact Nat.le_of_eq (congrArg rank (hdist _ _ hj hi hk.symm))
    | child hi hb hp ih => exact Nat.le_trans ih (Nat.le_of_lt (hrank _ _ hi hb.isAlive hp))
  intro h
  have hlt := hrank j w hj hw hp
  have hge := hle w h
  omega

theorem Below.removed (hl : ∀ i, alive i → ¬ gone i → alive' i ∧ name' i = name i ∧ parent' i = parent i)
    (hdown : ∀ i j, alive i → gone j → parent i = name j → gone i)
    (h : Below alive name parent k i) : gone i ∨ Below alive' name' parent' k i := by
  induction h with
  | @self i hi hk =>
    by_cases hg : gone i
    · exact .inl hg
    · obtain ⟨hi, hname, -⟩ := hl i hi hg
      exact .inr (.self hi (hname.trans hk))
  | @child i j hi hj hp ih =>
    by_cases hg : gone i
    · exact .inl hg
    rcases ih with hgj | hb
    · exact .inl (hdown i j hi hgj hp)
    · have hgj : ¬ gone j := fun hgj => hg (hdown i j hi hgj hp)
      obtain ⟨hi, -, hparent⟩ := hl i hi hg
      exact .inr (.child hi hb (hparent.trans (hp.trans (hl j hj.isAlive hgj).2.1.symm)))

end Below

open List

/-- A forest: its first node, the children of that node, and the trees behind it. -/
inductive Sibs (α : Type) where
  | nil
  | node (i : α) (child sib : Sibs α)

/-- How a link names a cell, and the link that names none. -/
structure Handles (α β : Type) where
  null : β
  ref : α → β
  ref_inj : Function.Injective ref
  ref_ne_null : ∀ i, ref i ≠ null

structure Links (α β : Type) where
  used : α → Prop
  parent : α → β
  first : α → β
  next : α → β

namespace Sibs

section Shape

variable {α : Type} {i j k : α} {b c s : Sibs α}

def slots : Sibs α → List α
  | nil => []
  | node i c s => i :: (slots c ++ slots s)

def spine : Sibs α → List α
  | nil => []
  | node i _ s => i :: spine s

/-- From top to bottom the nodes that are seen when those that are not `shown` hide what is below
them. -/
def visible (shown : α → Bool) : Sibs α → List α
  | nil => []
  | node i c s => i :: ((if shown i then visible shown c else []) ++ visible shown s)

@[simp] theorem slots_nil : slots (nil : Sibs α) = [] := rfl

@[simp] theorem slots_node : slots (node i c s) = i :: (slots c ++ slots s) := rfl

@[simp] theorem spine_nil : spine (nil : Sibs α) = [] := rfl

@[simp] theorem spine_node : spine (node i c s) = i :: spine s := rfl

def addFirst (n : α) (b : Sibs α) : Sibs α := node n nil b

def addLast (n : α) : Sibs α → Sibs α
  | nil => node n nil nil
  | node i c s => node i c (addLast n s)

theorem slots_addFirst (n : α) (b : Sibs α) : slots (addFirst n b) = n :: slots b := rfl

theorem slots_addLast (n : α) (b : Sibs α) : (slots (addLast n b)).Perm (n :: slots b) := by
  induction b with
  | nil => exact List.Perm.refl _
  | node i c s _ ih =>
    have hstep : (slots c ++ slots (addLast n s)).Perm (n :: (slots c ++ slots s)) :=
      (ih.append_left _).trans perm_middle
    exact (hstep.cons i).trans (List.Perm.swap _ _ _)

theorem spine_sublist (b : Sibs α) : (spine b).Sublist (slots b) := by
  induction b with
  | nil => exact List.Sublist.slnil
  | node i c s _ ih => exact (ih.trans (sublist_append_right _ _)).cons_cons i

theorem mem_slots_of_spine (h : i ∈ spine b) : i ∈ slots b := (spine_sublist b).subset h

theorem visible_length_le (shown : α → Bool) (b : Sibs α) :
    (visible shown b).length ≤ (slots b).length := by
  induction b with
  | nil => exact Nat.le_refl 0
  | node i c s ihc ihs =>
    simp only [visible, slots_node, length_cons, length_append]
    split_ifs
    · omega
    · rw [length_nil]
      omega

variable [DecidableEq α]

def under (k : α) : Sibs α → Sibs α
  | nil => nil
  | node i c s => if i = k then c else if k ∈ slots c then under k c else under k s

def mapUnder (k : α) (f : Sibs α → Sibs α) : Sibs α → Sibs α
  | nil => nil
  | node i c s =>
    if i = k then node i (f c) s
    else if k ∈ slots c then node i (mapUnder k f c) s else node i c (mapUnder k f s)

def dropTop (k : α) : Sibs α → Sibs α
  | nil => nil
  | node i c s => if i = k then s else node i c (dropTop k s)

theorem under_sublist (k : α) (b : Sibs α) : (slots (under k b)).Sublist (slots b) := by
  induction b with
  | nil => exact List.Sublist.slnil
  | node i c s ihc ihs =>
    rw [under, slots_node]
    split_ifs
    · exact (sublist_append_left _ _).cons i
    · exact (ihc.trans (sublist_append_left _ _)).cons i
    · exact (ihs.trans (sublist_append_right _ _)).cons i

theorem not_mem_under (h : (slots b).Nodup) : k ∉ slots (under k b) := by
  induction b with
  | nil => simp [under]
  | node i c s ihc ihs =>
    simp only [slots_node, nodup_cons, mem_append, not_or] at h
    obtain ⟨⟨hic, -⟩, hcs⟩ := h
    rw [under]
    split_ifs with hik hkc
    · rwa [← hik]
    · exact ihc (nodup_append.mp hcs).1
    · exact ihs (nodup_append.mp hcs).2.1

theorem exists_rest (hk : k ∈ slots b) :
    ∃ rest, k ∈ rest ∧ (slots b).Perm (rest ++ slots (under k b)) ∧
      ∀ f, (slots (mapUnder k f b)).Perm (rest ++ slots (f (under k b))) := by
  induction b with
  | nil => simp at hk
  | node i c s ihc ihs =>
    simp only [under, mapUnder]
    split_ifs with hik hkc
    · refine ⟨i :: slots s, by simp [hik], ?_, fun f => ?_⟩
      · exact List.Perm.cons _ perm_append_comm
      · exact List.Perm.cons _ perm_append_comm
    · obtain ⟨rest, hkr, hc, hf⟩ := ihc hkc
      have hmove : ∀ t : List α, ((rest ++ t) ++ slots s).Perm ((slots s ++ rest) ++ t) := by
        intro t
        rw [append_assoc (slots s)]
        exact perm_append_comm
      refine ⟨i :: (slots s ++ rest), by simp [hkr], ?_, fun f => ?_⟩
      · exact List.Perm.cons _ ((hc.append_right _).trans (hmove _))
      · exact List.Perm.cons _ (((hf f).append_right _).trans (hmove _))
    · have hks : k ∈ slots s := by
        rcases mem_cons.mp hk with rfl | hk
        · exact absurd rfl hik
        · exact (mem_append.mp hk).resolve_left hkc
      obtain ⟨rest, hkr, hs, hf⟩ := ihs hks
      refine ⟨i :: (slots c ++ rest), by simp [hkr], ?_, fun f => ?_⟩
      · rw [slots_node, cons_append, append_assoc]
        exact (hs.append_left _).cons i
      · rw [slots_node, cons_append, append_assoc]
        exact ((hf f).append_left _).cons i

theorem slots_dropTop (h : i ∈ spine b) (hn : (slots b).Nodup) :
    (slots b).Perm (slots (dropTop i b) ++ i :: slots (under i b)) := by
  induction b with
  | nil => simp at h
  | node j c s _ ih =>
    rw [dropTop, under]
    split_ifs with hji hic
    · rw [← hji]
      exact (perm_append_comm.cons j).trans perm_middle.symm
    · have his := mem_slots_of_spine ((mem_cons.mp h).resolve_left (Ne.symm hji))
      simp only [slots_node, nodup_cons] at hn
      exact absurd his fun his => (nodup_append.mp hn.2).2.2 i hic i his rfl
    · simp only [slots_node, nodup_cons] at hn
      have hs := ih ((mem_cons.mp h).resolve_left (Ne.symm hji))
        (nodup_append.mp hn.2).2.1
      rw [slots_node, slots_node, cons_append, append_assoc]
      exact (hs.append_left _).cons j

end Shape

section Stored

variable {α β : Type} {H : Handles α β} {m m' : Links α β} {p : β} {i j k n : α} {b c s : Sibs α}

def root (H : Handles α β) : Sibs α → β
  | nil => H.null
  | node i _ _ => H.ref i

/-- The cells hold the forest, and `p` is the link to the parent of its roots. -/
def Stored (H : Handles α β) (m : Links α β) (p : β) : Sibs α → Prop
  | nil => True
  | node i c s =>
    m.used i ∧ m.parent i = p ∧ m.first i = root H c ∧ m.next i = root H s ∧
      Stored H m (H.ref i) c ∧ Stored H m p s

structure SameCell (m m' : Links α β) (i : α) : Prop where
  used : m.used i → m'.used i
  parent : m'.parent i = m.parent i
  first : m'.first i = m.first i
  next : m'.next i = m.next i

@[simp] theorem root_nil : root H nil = H.null := rfl

@[simp] theorem root_node : root H (node i c s) = H.ref i := rfl

theorem root_eq_null : root H b = H.null ↔ b = nil := by
  cases b with
  | nil => simp
  | node i c s => simp [H.ref_ne_null]

theorem mem_spine_of_root (h : root H b = H.ref i) : i ∈ spine b := by
  cases b with
  | nil => exact absurd h.symm (H.ref_ne_null i)
  | node j c s =>
    rw [spine_node, H.ref_inj h]
    exact mem_cons_self

section

variable (h : Stored H m p b)
include h

theorem Stored.congr (hs : ∀ i ∈ slots b, SameCell m m' i) :
    Stored H m' p b := by
  induction b generalizing p with
  | nil => trivial
  | node i c s ihc ihs =>
    obtain ⟨hu, hp, hf, hn, hc, hrest⟩ := h
    have hi := hs i mem_cons_self
    refine ⟨hi.used hu, hi.parent.trans hp, hi.first.trans hf, hi.next.trans hn, ?_, ?_⟩
    · exact ihc hc fun j hj => hs j (mem_cons_of_mem _ (mem_append_left _ hj))
    · exact ihs hrest fun j hj => hs j (mem_cons_of_mem _ (mem_append_right _ hj))

theorem Stored.used (hi : i ∈ slots b) : m.used i := by
  induction b generalizing p with
  | nil => simp at hi
  | node j c s ihc ihs =>
    obtain ⟨hu, -, -, -, hc, hs⟩ := h
    rcases mem_cons.mp hi with rfl | hi
    · exact hu
    · rcases mem_append.mp hi with hi | hi
      · exact ihc hc hi
      · exact ihs hs hi

theorem Stored.parent (hi : i ∈ spine b) : m.parent i = p := by
  induction b with
  | nil => simp at hi
  | node j c s _ ih =>
    obtain ⟨-, hp, -, -, -, hs⟩ := h
    rcases mem_cons.mp hi with rfl | hi
    · exact hp
    · exact ih hs hi

theorem Stored.find_last [DecidableEq β] :
    (spine b).find? (fun j => m.next j = H.null) = (spine b).getLast? := by
  induction b with
  | nil => rfl
  | node i c s _ ih =>
    obtain ⟨-, -, -, hn, -, hs⟩ := h
    rw [spine_node]
    cases s with
    | nil => exact find?_cons_of_pos (by simp [hn])
    | node k d t =>
      rw [find?_cons_of_neg (by simp [hn, H.ref_ne_null]), ih hs, spine_node, getLast?_cons_cons]

theorem Stored.next_mem (hj : j ∈ slots b) (hn : m.next j = H.ref i) :
    i ∈ slots b := by
  induction b generalizing p with
  | nil => simp at hj
  | node a c s ihc ihs =>
    obtain ⟨-, -, -, hnext, hc, hs⟩ := h
    rw [slots_node]
    refine mem_cons_of_mem _ (mem_append.mpr ?_)
    rcases mem_cons.mp hj with rfl | hj
    · exact .inr (mem_slots_of_spine (mem_spine_of_root (hnext.symm.trans hn)))
    · exact (mem_append.mp hj).imp (ihc hc) (ihs hs)

theorem Stored.addFirst (hu : m.used n) (hp : m.parent n = p)
    (hf : m.first n = H.null) (hn : m.next n = root H b) : Stored H m p (addFirst n b) :=
  ⟨hu, hp, hf, hn, trivial, h⟩

theorem Stored.addLast (hnd : (slots b).Nodup)
    (hl : (spine b).getLast? = some j) (hs : ∀ i ∈ slots b, i ≠ j → SameCell m m' i)
    (hju : m'.used j) (hjp : m'.parent j = m.parent j) (hjf : m'.first j = m.first j)
    (hjn : m'.next j = H.ref n) (hu : m'.used n) (hp : m'.parent n = p)
    (hf : m'.first n = H.null) (hn : m'.next n = H.null) :
    Stored H m' p (addLast n b) ∧ root H (addLast n b) = root H b := by
  induction b with
  | nil => simp at hl
  | node i c s _ ih =>
    obtain ⟨hiu, hip, hif, hin, hc, hrest⟩ := h
    simp only [slots_node, nodup_cons, mem_append, not_or] at hnd
    obtain ⟨⟨hic, his⟩, hnd⟩ := hnd
    refine ⟨?_, rfl⟩
    cases s with
    | nil =>
      simp only [spine_node, spine_nil, getLast?_singleton, Option.some.injEq] at hl
      subst hl
      have hc' : Stored H m' (H.ref i) c := hc.congr fun l hl =>
        hs l (mem_cons_of_mem _ (mem_append_left _ hl)) fun heq => hic (heq ▸ hl)
      exact ⟨hju, hjp.trans hip, hjf.trans hif, hjn, hc', hu, hp, hf, hn, trivial, trivial⟩
    | node k d t =>
      simp only [spine_node, getLast?_cons_cons] at hl
      have hj : j ∈ slots (node k d t) :=
        mem_slots_of_spine (mem_of_getLast? (by rw [spine_node]; exact hl))
      have hc' : Stored H m' (H.ref i) c := by
        refine hc.congr fun l hlc => hs l (mem_cons_of_mem _ (mem_append_left _ hlc)) ?_
        rintro rfl
        exact (nodup_append.mp hnd).2.2 l hlc l hj rfl
      have hsame := hs i mem_cons_self fun heq => his (heq ▸ hj)
      obtain ⟨hrest', hroot⟩ := ih hrest (nodup_append.mp hnd).2.1 hl
        (fun l hl => hs l (mem_cons_of_mem _ (mem_append_right _ hl)))
      exact ⟨hsame.used hiu, hsame.parent.trans hip, hsame.first.trans hif,
        (hsame.next.trans hin).trans hroot.symm, hc', hrest'⟩

end

variable [DecidableEq α]

theorem Stored.under (h : Stored H m p b) (hk : k ∈ slots b) :
    Stored H m (H.ref k) (under k b) ∧ m.first k = root H (under k b) := by
  induction b generalizing p with
  | nil => simp at hk
  | node i c s ihc ihs =>
    obtain ⟨-, -, hf, -, hc, hs⟩ := h
    rw [Sibs.under]
    split_ifs with hik hkc
    · rw [← hik]
      exact ⟨hc, hf⟩
    · exact ihc hc hkc
    · have hk := (mem_cons.mp hk).resolve_left (Ne.symm hik)
      exact ihs hs ((mem_append.mp hk).resolve_left hkc)

theorem Stored.parent_cases (h : Stored H m p b) (hnd : (slots b).Nodup) (hi : i ∈ slots b) :
    i ∈ spine b ∨ ∃ k ∈ slots b, m.parent i = H.ref k ∧ i ∈ spine (Sibs.under k b) := by
  induction b generalizing p with
  | nil => simp at hi
  | node j c s ihc ihs =>
    obtain ⟨-, -, -, -, hc, hs⟩ := h
    simp only [slots_node, nodup_cons, mem_append, not_or] at hnd
    obtain ⟨⟨hjc, hjs⟩, hnd⟩ := hnd
    obtain ⟨hndc, hnds, hdisj⟩ := nodup_append.mp hnd
    rcases mem_cons.mp hi with rfl | hi
    · exact .inl mem_cons_self
    rcases mem_append.mp hi with hi | hi
    · rcases ihc hc hndc hi with hspine | ⟨k, hk, hpk, hspine⟩
      · exact .inr ⟨j, mem_cons_self, hc.parent hspine, by rwa [Sibs.under, if_pos rfl]⟩
      · refine .inr ⟨k, mem_cons_of_mem _ (mem_append_left _ hk), hpk, ?_⟩
        rw [Sibs.under, if_neg fun (heq : j = k) => hjc (heq ▸ hk), if_pos hk]
        exact hspine
    · rcases ihs hs hnds hi with hspine | ⟨k, hk, hpk, hspine⟩
      · exact .inl (mem_cons_of_mem _ hspine)
      · refine .inr ⟨k, mem_cons_of_mem _ (mem_append_right _ hk), hpk, ?_⟩
        rw [Sibs.under, if_neg fun (heq : j = k) => hjs (heq ▸ hk),
          if_neg fun hkc => hdisj k hkc k hk rfl]
        exact hspine

theorem Stored.mapUnder {f : Sibs α → Sibs α} (h : Stored H m p b) (hnd : (slots b).Nodup)
    (hk : k ∈ slots b) (hs : ∀ j ∈ slots b, j ≠ k → j ∉ slots (Sibs.under k b) → SameCell m m' j)
    (hku : m'.used k) (hkp : m'.parent k = m.parent k) (hkn : m'.next k = m.next k)
    (hkf : m'.first k = root H (f (Sibs.under k b)))
    (hsub : Stored H m' (H.ref k) (f (Sibs.under k b))) :
    Stored H m' p (mapUnder k f b) ∧ root H (Sibs.mapUnder k f b) = root H b := by
  induction b generalizing p with
  | nil => simp at hk
  | node i c s ihc ihs =>
    obtain ⟨hiu, hip, hif, hin, hc, hrest⟩ := h
    simp only [slots_node, nodup_cons, mem_append, not_or] at hnd
    obtain ⟨⟨hic, his⟩, hnd⟩ := hnd
    obtain ⟨hndc, hnds, hdisj⟩ := nodup_append.mp hnd
    rw [Sibs.mapUnder]
    by_cases hik : i = k
    · subst hik
      rw [Sibs.under, if_pos rfl] at hs hkf hsub
      rw [if_pos rfl]
      refine ⟨⟨hku, hkp.trans hip, hkf, hkn.trans hin, hsub, hrest.congr fun j hj => ?_⟩, rfl⟩
      refine hs j (mem_cons_of_mem _ (mem_append_right _ hj)) (fun heq => his (heq ▸ hj)) ?_
      exact fun hjc => hdisj j hjc j hj rfl
    by_cases hkc : k ∈ slots c
    · rw [Sibs.under, if_neg hik, if_pos hkc] at hs hkf hsub
      rw [if_neg hik, if_pos hkc]
      have hsubset := (under_sublist k c).subset
      obtain ⟨hc', hroot⟩ := ihc hc hndc hkc
        (fun j hj => hs j (mem_cons_of_mem _ (mem_append_left _ hj))) hkf hsub
      have hsame := hs i mem_cons_self hik fun hi => hic (hsubset hi)
      refine ⟨⟨hsame.used hiu, hsame.parent.trans hip, (hsame.first.trans hif).trans hroot.symm,
        hsame.next.trans hin, hc', hrest.congr fun j hj => ?_⟩, rfl⟩
      refine hs j (mem_cons_of_mem _ (mem_append_right _ hj)) ?_ ?_
      · rintro rfl
        exact hdisj j hkc j hj rfl
      · exact fun hju => hdisj j (hsubset hju) j hj rfl
    · rw [Sibs.under, if_neg hik, if_neg hkc] at hs hkf hsub
      rw [if_neg hik, if_neg hkc]
      have hks := (mem_append.mp ((mem_cons.mp hk).resolve_left (Ne.symm hik))).resolve_left hkc
      have hsubset := (under_sublist k s).subset
      obtain ⟨hs', hroot⟩ := ihs hrest hnds hks
        (fun j hj => hs j (mem_cons_of_mem _ (mem_append_right _ hj))) hkf hsub
      have hsame := hs i mem_cons_self hik fun hi => his (hsubset hi)
      refine ⟨⟨hsame.used hiu, hsame.parent.trans hip, hsame.first.trans hif,
        (hsame.next.trans hin).trans hroot.symm, hc.congr fun j hj => ?_, hs'⟩, rfl⟩
      refine hs j (mem_cons_of_mem _ (mem_append_left _ hj)) (fun heq => hkc (heq ▸ hj)) ?_
      exact fun hju => hdisj j hj j (hsubset hju) rfl

theorem Stored.dropFirst (h : Stored H m p b) (hr : root H b = H.ref i) :
    Stored H m p (dropTop i b) ∧ m.next i = root H (dropTop i b) := by
  cases b with
  | nil => exact absurd hr.symm (H.ref_ne_null i)
  | node j c s =>
    obtain rfl := H.ref_inj hr
    obtain ⟨-, -, -, hn, -, hs⟩ := h
    rw [dropTop, if_pos rfl]
    exact ⟨hs, hn⟩

theorem Stored.dropNext [DecidableEq β] (h : Stored H m p b) (hnd : (slots b).Nodup)
    (hi : i ∈ spine b) (hr : root H b ≠ H.ref i) :
    ∃ j ∈ spine (dropTop i b), (spine b).find? (fun j => m.next j = H.ref i) = some j ∧
      ∀ m' : Links α β, (∀ l ∈ slots b, l ≠ j → SameCell m m' l) → m'.used j →
        m'.parent j = m.parent j → m'.first j = m.first j → m'.next j = m.next i →
        Stored H m' p (dropTop i b) ∧ root H (dropTop i b) = root H b := by
  induction b with
  | nil => simp at hi
  | node a c s _ ih =>
    obtain ⟨hau, hap, haf, han, hc, hrest⟩ := h
    simp only [slots_node, nodup_cons, mem_append, not_or] at hnd
    obtain ⟨⟨hac, has⟩, hnd⟩ := hnd
    obtain ⟨hndc, hnds, hdisj⟩ := nodup_append.mp hnd
    have hai : a ≠ i := fun heq => hr (by rw [heq, root_node])
    have his := (mem_cons.mp hi).resolve_left (Ne.symm hai)
    rw [dropTop, if_neg hai, spine_node]
    by_cases hrs : root H s = H.ref i
    · refine ⟨a, mem_cons_self, find?_cons_of_pos (by simp [han, hrs]), ?_⟩
      intro m' hs hu hp hf hn
      obtain ⟨hs', hnext⟩ := hrest.dropFirst hrs
      refine ⟨⟨hu, hp.trans hap, hf.trans haf, hn.trans hnext, hc.congr fun j hj => ?_,
        hs'.congr fun j hj => ?_⟩, rfl⟩
      · exact hs j (mem_cons_of_mem _ (mem_append_left _ hj)) fun heq => hac (heq ▸ hj)
      · have hj : j ∈ slots s := (slots_dropTop his hnds).symm.subset (mem_append_left _ hj)
        exact hs j (mem_cons_of_mem _ (mem_append_right _ hj)) fun heq => has (heq ▸ hj)
    · obtain ⟨j, hj, hfind, hstore⟩ := ih hrest hnds his hrs
      have hjs : j ∈ slots s :=
        (slots_dropTop his hnds).symm.subset (mem_append_left _ (mem_slots_of_spine hj))
      refine ⟨j, mem_cons_of_mem _ hj, ?_, ?_⟩
      · rw [spine_node, find?_cons_of_neg (by simpa [han] using hrs)]
        exact hfind
      intro m' hs hu hp hf hn
      obtain ⟨hs', hroot⟩ := hstore m'
        (fun l hl => hs l (mem_cons_of_mem _ (mem_append_right _ hl))) hu hp hf hn
      have hsame := hs a mem_cons_self fun heq => has (heq ▸ hjs)
      refine ⟨⟨hsame.used hau, hsame.parent.trans hap, hsame.first.trans haf,
        (hsame.next.trans han).trans hroot.symm, hc.congr fun l hl => ?_, hs'⟩, rfl⟩
      refine hs l (mem_cons_of_mem _ (mem_append_left _ hl)) ?_
      rintro rfl
      exact hdisj l hl l hjs rfl

end Stored

end Sibs

end Lib
