import DiscouNT.Win32k.Raise

/-!
# Win32k.RaiseLaw

When raising a window ends, keeps `window_list` a permutation and puts every window the raised one
owns above its owner.
-/

namespace DiscouNT.Win32k

open Lib Relation List Option

def Owns (read : Handle → Option Window) (l : List Handle) (o c : Handle) : Prop :=
  o ∈ l ∧ c ∈ l ∧ isOwned read o c = true

def Above (l : List Handle) (o c : Handle) : Prop :=
  ∃ i j : Nat, i < j ∧ l[i]? = some o ∧ l[j]? = some c

def OwnedAbove (read : Handle → Option Window) (l l' : List Handle) (h : Handle) : Prop :=
  ∀ o c, ReflTransGen (Owns read l) h o → Owns read l o c → Above l' o c

/-- The windows `h` owns are above the position `p`, and no two of them have the same owner. -/
structure Stacked (read : Handle → Option Window) (l : List Handle) (p : Nat) (h : Handle) :
    Prop where
  above : ∀ c, TransGen (Owns read l) h c → ∃ j, p < j ∧ l[j]? = some c
  single : ∀ o, ReflTransGen (Owns read l) h o → ∀ c c', Owns read l o c → Owns read l o c' → c = c'

section Runs

variable {read : Handle → Option Window} {z z' z1 z2 : ZOrder} {h owner child c c' : Handle}
  {l l' : List Handle} {i j k m p q fuel : Nat}

theorem owns_congr (read : Handle → Option Window) (hperm : l'.Perm l) : Owns read l' = Owns read l := by
  funext o c
  unfold Owns
  rw [hperm.mem_iff, hperm.mem_iff]

theorem index_unique (hnd : l.Nodup) (hi : l[i]? = some c) (hj : l[j]? = some c) : i = j :=
  (getElem?_inj (List.getElem?_eq_some_iff.mp hi).1 hnd).mp (hi.trans hj.symm)

theorem isOwned_unique (h1 : isOwned read c h = true) (h2 : isOwned read c' h = true) : c = c' := by
  unfold isOwned at h1 h2
  cases hw : read h with
  | none =>
    rw [hw] at h1
    cases h1
  | some w =>
    rw [hw, any_some, beq_iff_eq] at h1 h2
    rw [← h1, ← h2]

theorem Stacked.acyclic (hst : Stacked read l p owner) (hnd : l.Nodup) (ho : l[p]? = some owner)
    (hc : Owns read l owner c) : ¬ TransGen (Owns read l) c c := by
  intro hcycle
  obtain ⟨b, hb, hbc⟩ := TransGen.tail'_iff.mp hcycle
  obtain rfl := isOwned_unique hbc.2.2 hc.2.2
  obtain ⟨j, hj, hown⟩ := hst.above b (TransGen.head' hc hb)
  have := index_unique hnd ho hown
  omega

theorem raiseOwnedFrom_noNew {fuel : Nat} {owner : Handle} {i : Nat} {z z' : ZOrder}
    (hrun : raiseOwnedFrom read fuel owner i z = some z') : NoNew z z' := by
  induction fuel generalizing owner i z z' with
  | zero => cases hrun
  | succ fuel ih =>
    rw [raiseOwnedFrom] at hrun
    split at hrun
    · cases hrun
      exact NoNew.refl z
    · rename_i x hx
      split at hrun
      · split at hrun
        · cases hrun
        · rename_i z2 hrec
          exact (ZOrder.placeAbove_noNew owner (mem_of_getElem? hx)).trans ((ih hrec).trans (ih hrun))
      · exact ih hrun

theorem round_cases (hrun : raiseOwnedFrom read (fuel + 1) owner i z = some z')
    (hnd : z.list.Nodup) (ho : z.list[p]? = some owner) (hk : Kept z z') :
    (z.list[i]? = none ∧ z' = z) ∨
    (∃ x, z.list[i]? = some x ∧ isOwned read owner x = false ∧
      raiseOwnedFrom read fuel owner (i + 1) z = some z') ∨
    (∃ x z1 z2, z.list[i]? = some x ∧ isOwned read owner x = true ∧ p < i ∧
      z1 = { z with list := (z.list.eraseIdx i).insertIdx (p + 1) x } ∧ Kept z z1 ∧
      raiseOwnedFrom read fuel x 0 z1 = some z2 ∧ Kept z1 z2 ∧
      raiseOwnedFrom read fuel owner (p + 2) z2 = some z' ∧ Kept z2 z') := by
  rw [raiseOwnedFrom] at hrun
  cases hx : z.list[i]? with
  | none =>
    rw [hx] at hrun
    cases hrun
    exact .inl ⟨rfl, rfl⟩
  | some x =>
    rw [hx] at hrun
    simp only at hrun
    cases hown : isOwned read owner x with
    | false =>
      rw [hown, if_neg (by simp)] at hrun
      exact .inr (.inl ⟨x, rfl, hown, hrun⟩)
    | true =>
      rw [hown, if_pos rfl] at hrun
      split at hrun
      · cases hrun
      · rename_i z2 hrec
        rw [ZOrder.nextAfter, ZOrder.lastPos_eq hnd ho] at hrun
        have hplace := ZOrder.placeAbove_noNew owner (mem_of_getElem? hx)
        obtain ⟨hk1, hk2⟩ := hplace.kept ((raiseOwnedFrom_noNew hrec).trans
          (raiseOwnedFrom_noNew hrun)) hnd hk
        obtain ⟨hk2, hk3⟩ := (raiseOwnedFrom_noNew hrec).kept (raiseOwnedFrom_noNew hrun)
          (hk1.nodup hnd) hk2
        have hpi : p < i := by
          by_contra hle
          exact ZOrder.placeAbove_below hnd ho hx (Nat.le_of_not_lt hle) hk1
        exact .inr (.inr ⟨x, _, z2, rfl, hown, hpi, ZOrder.placeAbove_above hnd ho hx hpi, hk1,
          hrec, hk2, hrun, hk3⟩)

theorem getElem?_placed (hpi : p < i) (hj : j ≤ p) :
    ((z.list.eraseIdx i).insertIdx (p + 1) c)[j]? = z.list[j]? := by
  rw [getElem?_insertIdx, if_pos (by omega), getElem?_eraseIdx, if_pos (by omega)]

theorem getElem?_placed_self (hpi : p < i) (hx : z.list[i]? = some c) :
    ((z.list.eraseIdx i).insertIdx (p + 1) c)[p + 1]? = some c := by
  have hlt := (List.getElem?_eq_some_iff.mp hx).1
  have hlen := length_eraseIdx_of_lt hlt
  rw [getElem?_insertIdx, if_neg (by omega), if_pos rfl, if_pos (by omega)]

theorem raiseOwnedFrom_below_owner {fuel : Nat} {owner : Handle} {i p : Nat} {z z' : ZOrder}
    (hrun : raiseOwnedFrom read fuel owner i z = some z') (hnd : z.list.Nodup)
    (ho : z.list[p]? = some owner) (hk : Kept z z') :
    ∀ j, j ≤ p → z'.list[j]? = z.list[j]? := by
  induction fuel generalizing owner i z z' p with
  | zero => cases hrun
  | succ fuel ih =>
    rcases round_cases hrun hnd ho hk with ⟨-, rfl⟩ | ⟨x, -, -, hrest⟩ |
      ⟨x, z1, z2, hx, -, hpi, hz1, hk1, hrec, hk2, hrest, hk3⟩
    · exact fun _ _ => rfl
    · exact ih hrest hnd ho hk
    · have hnd1 := hk1.nodup hnd
      have hself : z1.list[p + 1]? = some x := by rw [hz1]; exact getElem?_placed_self hpi hx
      have hbelow : ∀ j, j ≤ p → z2.list[j]? = z.list[j]? := by
        intro j hj
        have hplaced : z1.list[j]? = z.list[j]? := by rw [hz1]; exact getElem?_placed hpi hj
        rw [ih hrec hnd1 hself hk2 j (by omega), hplaced]
      intro j hj
      have ho2 : z2.list[p]? = some owner := by rw [hbelow p (Nat.le_refl p), ho]
      rw [ih hrest (hk2.nodup hnd1) ho2 hk3 j hj, hbelow j hj]

theorem not_kept_of_two {fuel : Nat} {i : Nat} {z z' : ZOrder} {a b : Nat}
    (hrun : raiseOwnedFrom read fuel owner i z = some z') (hnd : z.list.Nodup)
    (ho : z.list[p]? = some owner) (hc : z.list[a]? = some c) (hc' : z.list[b]? = some c')
    (hown : isOwned read owner c = true) (hown' : isOwned read owner c' = true) (hne : c ≠ c')
    (ha : p < a) (hb : p < b) (hi : i ≤ a ∨ i ≤ b) : ¬ Kept z z' := by
  intro hk
  induction fuel generalizing i z z' a b with
  | zero => cases hrun
  | succ fuel ih =>
    rcases round_cases hrun hnd ho hk with ⟨hnone, -⟩ | ⟨x, hx, hnot, hrest⟩ |
      ⟨x, z1, z2, hx, -, hpi, hz1, hk1, hrec, hk2, hrest, hk3⟩
    · have hlen := List.getElem?_eq_none_iff.mp hnone
      have hla := (List.getElem?_eq_some_iff.mp hc).1
      have hlb := (List.getElem?_eq_some_iff.mp hc').1
      omega
    · refine ih hrest hnd ho hc hc' ha hb ?_ hk
      have hia : i ≠ a := by
        rintro rfl
        rw [some.inj (hx.symm.trans hc), hown] at hnot
        cases hnot
      have hib : i ≠ b := by
        rintro rfl
        rw [some.inj (hx.symm.trans hc'), hown'] at hnot
        cases hnot
      omega
    · -- both are still above the owner, so one of them is at or above the place to go on from
      have hnd1 := hk1.nodup hnd
      have hnd2 := hk2.nodup hnd1
      have hself : z1.list[p + 1]? = some x := by rw [hz1]; exact getElem?_placed_self hpi hx
      have hbelow : ∀ j, j ≤ p → z2.list[j]? = z.list[j]? := by
        intro j hj
        have hplaced : z1.list[j]? = z.list[j]? := by rw [hz1]; exact getElem?_placed hpi hj
        rw [raiseOwnedFrom_below_owner hrec hnd1 hself hk2 j (by omega), hplaced]
      have hmoved : ∀ {d : Handle} {e : Nat}, z.list[e]? = some d → p < e →
          ∃ e', p < e' ∧ z2.list[e']? = some d := by
        intro d e hd he
        have hmem : d ∈ z2.list := (hk1.trans hk2).perm.mem_iff.mpr (mem_of_getElem? hd)
        obtain ⟨e', he'⟩ := mem_iff_getElem?.mp hmem
        refine ⟨e', ?_, he'⟩
        by_contra hle
        have := index_unique hnd hd ((hbelow e' (Nat.le_of_not_lt hle)).symm.trans he')
        omega
      obtain ⟨a', ha', hca⟩ := hmoved hc ha
      obtain ⟨b', hb', hcb⟩ := hmoved hc' hb
      have hab : a' ≠ b' := by
        rintro rfl
        exact hne (some.inj (hca.symm.trans hcb))
      exact ih hrest hnd2 (by rw [hbelow p (Nat.le_refl p), ho]) hca hcb ha' hb' (by omega) hk3

theorem stacked_of_kept {fuel : Nat} {owner : Handle} {i p : Nat} {z z' : ZOrder}
    (hrun : raiseOwnedFrom read fuel owner i z = some z') (hnd : z.list.Nodup)
    (ho : z.list[p]? = some owner) (hk : Kept z z')
    (hfrom : ∀ j x, z.list[j]? = some x → isOwned read owner x = true → i ≤ j) :
    Stacked read z.list p owner := by
  induction fuel generalizing owner i z z' p with
  | zero => cases hrun
  | succ fuel ih =>
    rcases round_cases hrun hnd ho hk with ⟨hnone, -⟩ | ⟨x, hx, hnot, hrest⟩ |
      ⟨x, z1, z2, hx, hown, hpi, hz1, hk1, hrec, hk2, hrest, hk3⟩
    · have hno : ∀ c, ¬ Owns read z.list owner c := by
        rintro c ⟨-, hc, hown⟩
        obtain ⟨j, hj⟩ := mem_iff_getElem?.mp hc
        have hij := hfrom j c hj hown
        have hlen := List.getElem?_eq_none_iff.mp hnone
        have hlt := (List.getElem?_eq_some_iff.mp hj).1
        omega
      constructor
      · intro c hc
        obtain ⟨d, hd, -⟩ := TransGen.head'_iff.mp hc
        exact absurd hd (hno d)
      · intro o hoo c c' hoc
        rcases ReflTransGen.cases_head hoo with rfl | ⟨d, hd, -⟩
        · exact absurd hoc (hno c)
        · exact absurd hd (hno d)
    · refine ih hrest hnd ho hk fun j y hy hown => ?_
      have hij := hfrom j y hy hown
      have hne : i ≠ j := by
        rintro rfl
        rw [some.inj (hx.symm.trans hy), hown] at hnot
        cases hnot
      omega
    · have hnd1 := hk1.nodup hnd
      have hself : z1.list[p + 1]? = some x := by rw [hz1]; exact getElem?_placed_self hpi hx
      have hst := ih hrec hnd1 hself hk2 fun j _ _ _ => Nat.zero_le j
      have howns : Owns read z1.list = Owns read z.list := owns_congr read hk1.perm
      have honly : ∀ c, Owns read z.list owner c → c = x := by
        rintro c ⟨-, hc, hcown⟩
        by_contra hne
        obtain ⟨j, hj⟩ := mem_iff_getElem?.mp hc
        have hij := hfrom j c hj hcown
        exact not_kept_of_two hrun hnd ho hx hj hown hcown (Ne.symm hne) hpi (by omega)
          (.inl (Nat.le_refl i)) hk
      have habove : ∀ c, TransGen (Owns read z.list) x c → ∃ j, p < j ∧ z.list[j]? = some c := by
        intro c hc
        obtain ⟨j, hj, hcj⟩ := hst.above c (by rw [howns]; exact hc)
        obtain ⟨e, he⟩ := mem_iff_getElem?.mp (hk1.perm.mem_iff.mp (mem_of_getElem? hcj))
        refine ⟨e, ?_, he⟩
        by_contra hle
        have hplaced : z1.list[e]? = z.list[e]? := by
          rw [hz1]
          exact getElem?_placed hpi (Nat.le_of_not_lt hle)
        have := index_unique hnd1 hcj (hplaced.trans he)
        omega
      constructor
      · intro c hc
        obtain ⟨d, hd, hdc⟩ := TransGen.head'_iff.mp hc
        obtain rfl := honly d hd
        rcases reflTransGen_iff_eq_or_transGen.mp hdc with rfl | hdc
        · exact ⟨i, hpi, hx⟩
        · exact habove c hdc
      · intro o hoo c c' hoc hoc'
        rcases ReflTransGen.cases_head hoo with rfl | ⟨d, hd, hdo⟩
        · rw [honly c hoc, honly c' hoc']
        · obtain rfl := honly d hd
          rw [← howns] at hdo hoc hoc'
          exact hst.single o hdo c c' hoc hoc'

theorem raiseOwnedFrom_succ {fuel : Nat} {owner : Handle} {i : Nat} {z z' : ZOrder}
    (hrun : raiseOwnedFrom read fuel owner i z = some z') :
    raiseOwnedFrom read (fuel + 1) owner i z = some z' := by
  induction fuel generalizing owner i z z' with
  | zero => cases hrun
  | succ fuel ih =>
    rw [raiseOwnedFrom] at hrun ⊢
    split at hrun
    · exact hrun
    · split at hrun
      · rename_i x _ hown
        rw [if_pos hown]
        split at hrun
        · cases hrun
        · rename_i z2 hrec
          simp only [ih hrec]
          exact ih hrun
      · rename_i hown
        rw [if_neg hown]
        exact ih hrun

theorem raiseOwnedFrom_mono {fuel fuel' : Nat} (hle : fuel ≤ fuel')
    (hrun : raiseOwnedFrom read fuel owner i z = some z') :
    raiseOwnedFrom read fuel' owner i z = some z' := by
  induction hle with
  | refl => exact hrun
  | step _ ih => exact raiseOwnedFrom_succ ih

theorem raiseOwnedFrom_skip (hlen : i + m ≤ z.list.length)
    (hskip : ∀ j x, i ≤ j → j < i + m → z.list[j]? = some x → isOwned read owner x = false) :
    raiseOwnedFrom read (fuel + m) owner i z = raiseOwnedFrom read fuel owner (i + m) z := by
  induction m generalizing i with
  | zero => rfl
  | succ m ih =>
    have hlt : i < z.list.length := by omega
    have hown := hskip i _ (Nat.le_refl i) (by omega) (getElem?_eq_getElem hlt)
    rw [← Nat.add_assoc, raiseOwnedFrom, getElem?_eq_getElem hlt]
    simp only
    rw [if_neg (by rw [hown]; simp), ih (by omega) fun j x hj hjm => hskip j x (by omega) (by omega),
      show i + 1 + m = i + (m + 1) by omega]

theorem raiseOwnedFrom_done (hi : i ≤ z.list.length) (hfuel : z.list.length - i < fuel)
    (hskip : ∀ j x, i ≤ j → z.list[j]? = some x → isOwned read owner x = false) :
    raiseOwnedFrom read fuel owner i z = some z := by
  obtain ⟨k, rfl⟩ := Nat.exists_eq_add_of_lt hfuel
  have hrest : raiseOwnedFrom read (k + 1) owner z.list.length z = some z := by
    rw [raiseOwnedFrom, getElem?_eq_none (Nat.le_refl _)]
  rw [show z.list.length - i + k + 1 = k + 1 + (z.list.length - i) by omega,
    raiseOwnedFrom_skip (by omega) fun j x hj _ => hskip j x hj,
    show i + (z.list.length - i) = z.list.length by omega, hrest]

theorem raiseOwned_of_stacked {n : Nat} {owner : Handle} {p : Nat} {z : ZOrder}
    (hnd : z.list.Nodup) (ho : z.list[p]? = some owner) (hlen : z.list.length ≤ p + n)
    (hst : Stacked read z.list p owner) :
    ∃ z', raiseOwnedFrom read ((z.list.length + 1) * n) owner 0 z = some z' ∧ Kept z z' ∧
      OwnedAbove read z.list z'.list owner := by
  induction n generalizing owner p z with
  | zero =>
    have := (List.getElem?_eq_some_iff.mp ho).1
    omega
  | succ n ih =>
    by_cases hex : ∃ c, Owns read z.list owner c
    · obtain ⟨c, hoc⟩ := hex
      obtain ⟨j, hpj, hj⟩ := hst.above c (.single hoc)
      have hlt := (List.getElem?_eq_some_iff.mp hj).1
      have honly : ∀ e x, z.list[e]? = some x → e ≠ j → isOwned read owner x = false := by
        intro e x he hne
        by_contra hown
        have hx : Owns read z.list owner x := ⟨hoc.1, mem_of_getElem? he, by simpa using hown⟩
        have hxc := hst.single owner .refl x c hx hoc
        exact hne (index_unique hnd (hxc ▸ he) hj)
      let z1 : ZOrder := { z with list := (z.list.eraseIdx j).insertIdx (p + 1) c }
      have hk1 : Kept z z1 := ⟨perm_insertIdx_eraseIdx hj (by omega), rfl⟩
      have hnd1 := hk1.nodup hnd
      have hself : z1.list[p + 1]? = some c := getElem?_placed_self hpj hj
      have howns : Owns read z1.list = Owns read z.list := owns_congr read hk1.perm
      have hst1 : Stacked read z1.list (p + 1) c := by
        constructor
        · intro d hd
          rw [howns] at hd
          obtain ⟨e, hpe, he⟩ := hst.above d (.head hoc hd)
          obtain ⟨e', he'⟩ := mem_iff_getElem?.mp
            (hk1.perm.mem_iff.mpr (mem_of_getElem? he))
          refine ⟨e', ?_, he'⟩
          by_contra hle
          rcases Nat.lt_or_ge p e' with hlt | hge
          · have heq : e' = p + 1 := by omega
            subst heq
            obtain rfl : d = c := some.inj (he'.symm.trans hself)
            exact hst.acyclic hnd ho hoc hd
          · have hplaced : z1.list[e']? = z.list[e']? := getElem?_placed hpj hge
            have := index_unique hnd he (hplaced.symm.trans he')
            omega
        · intro o ho d d' hd hd'
          rw [howns] at ho hd hd'
          exact hst.single o (.head hoc ho) d d' hd hd'
      have hlen1 : z1.list.length = z.list.length := hk1.perm.length_eq
      obtain ⟨z2, hrec, hk2, habove2⟩ := ih hnd1 hself (by omega) hst1
      rw [hlen1] at hrec
      rw [OwnedAbove, howns] at habove2
      have hlen2 : z2.list.length = z.list.length := hk2.perm.length_eq.trans hlen1
      have hnd2 := hk2.nodup hnd1
      have hbelow : ∀ e, e ≤ p + 1 → z2.list[e]? = z1.list[e]? :=
        raiseOwnedFrom_below_owner hrec hnd1 hself hk2
      have ho1 : z1.list[p]? = some owner := (getElem?_placed hpj (Nat.le_refl p)).trans ho
      have ho2 : z2.list[p]? = some owner := (hbelow p (by omega)).trans ho1
      have hc2 : z2.list[p + 1]? = some c := (hbelow (p + 1) (Nat.le_refl _)).trans hself
      refine ⟨z2, ?_, hk1.trans hk2, ?_⟩
      · have hn : 1 ≤ n := by omega
        have hmul : z.list.length + 1 ≤ (z.list.length + 1) * n := Nat.le_mul_of_pos_right _ hn
        have hfuel : (z.list.length + 1) * (n + 1) =
            (z.list.length + 1) * n + (z.list.length - j) + 1 + j := by
          rw [Nat.mul_add, Nat.mul_one]
          omega
        have hrest : raiseOwnedFrom read ((z.list.length + 1) * n + (z.list.length - j)) owner
            (p + 2) z2 = some z2 := by
          refine raiseOwnedFrom_done (by omega) (by omega) fun e x he hx => ?_
          by_contra hown
          have hxo : Owns read z.list owner x :=
            ⟨hoc.1, (hk1.trans hk2).perm.mem_iff.mp (mem_of_getElem? hx), by simpa using hown⟩
          have hxc := hst.single owner .refl x c hxo hoc
          have := index_unique hnd2 hx (hxc ▸ hc2)
          omega
        rw [hfuel, raiseOwnedFrom_skip (by omega) fun e x _ he hx => honly e x hx (by omega),
          Nat.zero_add, raiseOwnedFrom, hj]
        simp only
        rw [if_pos hoc.2.2, ZOrder.placeAbove_above hnd ho hj hpj, ZOrder.nextAfter,
          ZOrder.lastPos_eq hnd ho]
        have hrec' : raiseOwnedFrom read ((z.list.length + 1) * n + (z.list.length - j)) c 0
            { z with list := (z.list.eraseIdx j).insertIdx (p + 1) c } = some z2 :=
          raiseOwnedFrom_mono (Nat.le_add_right _ _) hrec
        simp only [hrec']
        exact hrest
      · intro o d hoo hod
        rcases ReflTransGen.cases_head hoo with rfl | ⟨b, hb, hbo⟩
        · obtain rfl := hst.single owner .refl d c hod hoc
          exact ⟨p, p + 1, by omega, ho2, hc2⟩
        · obtain rfl := hst.single owner .refl b c hb hoc
          exact habove2 o d hbo hod
    · have hno : ∀ c, ¬ Owns read z.list owner c := fun c hc => hex ⟨c, hc⟩
      refine ⟨z, ?_, Kept.refl z, ?_⟩
      · refine raiseOwnedFrom_done (Nat.zero_le _) ?_ fun j x _ hx => ?_
        · have hmul := Nat.le_mul_of_pos_right (z.list.length + 1) (Nat.succ_pos n)
          rw [Nat.succ_eq_add_one] at hmul
          omega
        · by_contra hown
          exact hno x ⟨mem_of_getElem? ho, mem_of_getElem? hx, by simpa using hown⟩
      · intro o c hoo hoc
        rcases ReflTransGen.cases_head hoo with rfl | ⟨d, hd, -⟩
        · exact absurd hoc (hno c)
        · exact absurd hd (hno d)

theorem raiseOwnedWindows_iff (hnd : z.list.Nodup) (ho : z.list[p]? = some owner) :
    (∃ fuel z', raiseOwnedWindows read fuel owner z = some z' ∧ Kept z z' ∧
      OwnedAbove read z.list z'.list owner) ↔ Stacked read z.list p owner := by
  constructor
  · rintro ⟨fuel, z', hrun, hk, -⟩
    exact stacked_of_kept hrun hnd ho hk fun j _ _ _ => Nat.zero_le j
  · intro hst
    obtain ⟨z', h⟩ := raiseOwned_of_stacked hnd ho (Nat.le_add_left _ p) hst
    exact ⟨_, z', h⟩

end Runs

/-! ## The move of the raised window -/

def topmostAt (read : Handle → Option Window) (h : Handle) : Bool :=
  (read h).any windowIsTopmost

/-- Where among the other windows of the list a raised window goes: below the first topmost one,
or to the top when it is topmost itself. -/
def front (read : Handle → Option Window) (l : List Handle) (h : Handle) : Nat :=
  if topmostAt read h then (l.erase h).length else (l.erase h).findIdx (topmostAt read)

/-- Where among the other windows `h` is when its popups are raised: at the front of its band, and
if it had to be moved there, above its owner. -/
def raisedAt (read : Handle → Option Window) (l : List Handle) (h owner : Handle) : Nat :=
  if firstPos l h = some (front read l h) ∨ owner = invalidHandle then front read l h
  else
    match firstPos (l.erase h) owner with
    | none => front read l h
    | some q => if front read l h ≤ q then q + 1 else front read l h

section Move

variable {read : Handle → Option Window} {z : ZOrder} {h owner : Handle} {w : Window}
  {l : List Handle} {pos target fuel q : Nat}

theorem split_at (hnd : l.Nodup) (hpos : l[pos]? = some h) :
    ∃ A B, l = A ++ h :: B ∧ A.length = pos := by
  obtain ⟨A, B, hAB⟩ := append_of_mem (mem_of_getElem? hpos)
  refine ⟨A, B, hAB, index_unique hnd ?_ hpos⟩
  rw [hAB, getElem?_append_right (Nat.le_refl _), Nat.sub_self, getElem?_cons_zero]

theorem erase_split {A B : List Handle} (hnd : (A ++ h :: B).Nodup) :
    (A ++ h :: B).erase h = A ++ B := by
  have hA : h ∉ A := fun hmem =>
    (disjoint_of_nodup_append hnd) hmem mem_cons_self
  rw [erase_append_right _ hA, erase_cons_head]

theorem moveEntry_eq (hnd : z.list.Nodup) (hpos : z.list[pos]? = some h)
    (ht : target < z.list.length) :
    z.moveEntry pos target h = { z with list := (z.list.erase h).insertIdx target h } := by
  obtain ⟨hlt, hget⟩ := List.getElem?_eq_some_iff.mp hpos
  have herase : z.list.erase h = z.list.eraseIdx pos := by
    rw [← hget, hnd.erase_getElem]
  unfold ZOrder.moveEntry
  split
  · rename_i hlt'
    rw [ZOrder.write, if_pos (by simpa using ht)]
    simp only [shiftDown_set (Nat.le_of_lt hlt') ht, herase]
  · rename_i hge
    rw [ZOrder.write, if_pos (by simpa using ht)]
    simp only [shiftUp_set (Nat.le_of_not_lt hge) hlt, herase]

theorem raiseTarget_eq (hnd : z.list.Nodup) (hpos : z.list[pos]? = some h) (hw : read h = some w) :
    (raiseTarget (windowIsTopmost w) (firstTopmost read z) z.list.length pos).toNat =
      front read z.list h := by
  obtain ⟨hlt, hget⟩ := List.getElem?_eq_some_iff.mp hpos
  have htop : topmostAt read h = windowIsTopmost w := by simp [topmostAt, hw]
  have hlen : (z.list.erase h).length = z.list.length - 1 :=
    length_erase_of_mem (mem_of_getElem? hpos)
  unfold raiseTarget front
  rw [htop]
  cases hcase : windowIsTopmost w with
  | true =>
    simp only [if_true, hlen]
    split <;> omega
  | false =>
    simp only [Bool.false_eq_true, if_false]
    obtain ⟨A, B, hAB, hA⟩ := split_at hnd hpos
    rw [firstTopmost, ← findIdx_eq_getD_findIdx?, hAB, erase_split (hAB ▸ hnd)]
    have hself : topmostAt read h = false := by rw [htop, hcase]
    have hpred : (fun h => (read h).any windowIsTopmost) = topmostAt read := rfl
    rw [hpred, findIdx_append, findIdx_append, findIdx_cons, hself, cond_false]
    by_cases hfront : A.findIdx (topmostAt read) < A.length
    · rw [if_pos hfront, if_pos hfront]
      split <;> split <;> omega
    · rw [if_neg hfront, if_neg hfront]
      split <;> split <;> omega

theorem front_le (read : Handle → Option Window) (hh : h ∈ l) : front read l h ≤ (l.erase h).length := by
  unfold front
  split
  · exact Nat.le_refl _
  · exact findIdx_le_length

theorem aboveOwner_eq (hnd : z.list.Nodup) (hh : h ∈ z.list)
    (hpos : firstPos z.list h ≠ some (front read z.list h)) :
    aboveOwner h owner (front read z.list h)
        { z with list := (z.list.erase h).insertIdx (front read z.list h) h } =
      { z with list := (z.list.erase h).insertIdx (raisedAt read z.list h owner) h } := by
  have hle := front_le read hh
  have hndo : (z.list.erase h).Nodup := hnd.erase h
  have hnot : h ∉ z.list.erase h := fun hmem => (hnd.mem_erase_iff.mp hmem).1 rfl
  have hlen := length_insertIdx_of_le_length hle h
  have hperm : ((z.list.erase h).insertIdx (front read z.list h) h).Perm z.list :=
    (perm_insertIdx _ _ hle).trans (perm_cons_erase hh).symm
  have hnd1 := hperm.nodup_iff.mpr hnd
  generalize hk : front read z.list h = k at *
  unfold aboveOwner raisedAt
  rw [hk]
  by_cases hinv : owner = invalidHandle
  · rw [if_pos hinv, if_pos (.inr hinv)]
  · rw [if_neg hinv, if_neg (by simp [hpos, hinv])]
    rcases hq : firstPos (z.list.erase h) owner with _ | q
    · have hno := firstPos_eq_none.mp hq
      by_cases hown : owner = h
      · subst hown
        rw [firstPos_eq hnd1 (getElem?_insertIdx_self.trans (if_pos hle))]
        simp only [Nat.le_refl, if_true, Nat.sub_self, shiftDown, ZOrder.write]
        rw [if_pos (by omega), set_self (getElem?_insertIdx_self.trans (if_pos hle))]
      · have hno' : owner ∉ (z.list.erase h).insertIdx k h := by
          rw [mem_insertIdx hle]
          rintro (rfl | hmem)
          · exact hown rfl
          · exact hno hmem
        rw [firstPos_eq_none.mpr hno']
    · have hq' := firstPos_spec hq
      have hqlt := (List.getElem?_eq_some_iff.mp hq').1
      by_cases hkq : k ≤ q
      · -- the owner is one place further up, now that the window is back in the list
        have hown : ((z.list.erase h).insertIdx k h)[q + 1]? = some owner := by
          rw [getElem?_insertIdx, if_neg (by omega), if_neg (by omega), Nat.add_sub_cancel, hq']
        rw [firstPos_eq hnd1 hown]
        simp only [if_pos hkq]
        rw [if_pos (by omega), ZOrder.write, if_pos (by simp only [length_shiftDown]; omega)]
        simp only [shiftDown_set (show k ≤ q + 1 by omega)
          (show q + 1 < ((z.list.erase h).insertIdx k h).length by omega),
          eraseIdx_insertIdx_self]
      · have hown : ((z.list.erase h).insertIdx k h)[q]? = some owner := by
          rw [getElem?_insertIdx_of_lt (by omega), hq']
        rw [firstPos_eq hnd1 hown]
        simp only [if_neg hkq]

theorem raisedAt_le (hh : h ∈ l) : raisedAt read l h owner ≤ (l.erase h).length := by
  have hle := front_le read hh
  unfold raisedAt
  split
  · exact hle
  · split
    · exact hle
    · rename_i q hq
      have hlt := (List.getElem?_eq_some_iff.mp (firstPos_spec hq)).1
      split <;> omega

theorem perm_raisedAt (read : Handle → Option Window) (owner : Handle) (hh : h ∈ l) :
    ((l.erase h).insertIdx (raisedAt read l h owner) h).Perm l :=
  (perm_insertIdx _ _ (raisedAt_le hh)).trans (perm_cons_erase hh).symm

theorem raiseZ_eq (hnd : z.list.Nodup) (hh : h ∈ z.list) (hw : read h = some w)
    (hdesk : w.desktop = false) :
    raiseZ read fuel h z = raiseOwnedWindows read fuel h
      { z with list := (z.list.erase h).insertIdx (raisedAt read z.list h w.owner) h } := by
  obtain ⟨pos, hpos⟩ := mem_iff_getElem?.mp hh
  have hfirst := firstPos_eq hnd hpos
  have hlt := (List.getElem?_eq_some_iff.mp hpos).1
  have hlen := length_erase_of_mem hh
  have hle := front_le read hh
  unfold raiseZ
  rw [hw, hfirst]
  simp only [hdesk, Bool.false_eq_true, if_false, raiseTarget_eq hnd hpos hw]
  by_cases hat : pos = front read z.list h
  · rw [if_pos hat, raisedAt, if_pos (.inl (hfirst.trans (congrArg some hat)))]
    congr 1
    have hmove := moveEntry_eq hnd hpos hlt
    rw [ZOrder.moveEntry, if_neg (Nat.lt_irrefl _), Nat.sub_self, shiftUp, ZOrder.write,
      if_pos hlt, set_self hpos, hat] at hmove
    exact hmove
  · rw [if_neg hat, moveEntry_eq hnd hpos (by omega), aboveOwner_eq hnd hh (by
      rw [hfirst]
      exact fun heq => hat (some.inj heq))]

end Move

/-! ## The law -/

/-- What raising `h` should do: rearrange the list, write nothing beyond it, and leave every window
`h` owns above its owner. -/
structure Raised (s : State) (h : Handle) (z : ZOrder) : Prop where
  kept : Kept s.toZOrder z
  above : OwnedAbove s.win s.list z.list h

def RaiseLaw (s : State) (h : Handle) : Prop :=
  ∃ fuel z, raiseZ (fun h => (peek h s).1) fuel h s.toZOrder = some z ∧
    raiseWindow fuel h s = { s with toZOrder := z } ∧ Raised s h z

def RaiseOwnedLaw (s : State) (h : Handle) : Prop :=
  ∃ fuel z, raiseOwnedWindows (fun h => (peek h s).1) fuel h s.toZOrder = some z ∧ Raised s h z

/-- The windows that `h` owns lie above the place where `h` is put, and no two of them have the
same owner. -/
structure Chain (s : State) (h owner : Handle) : Prop where
  above : ∀ c, TransGen (Owns s.win s.list) h c →
    c ∈ (s.list.erase h).drop (raisedAt s.win s.list h owner)
  single : ∀ o, ReflTransGen (Owns s.win s.list) h o →
    ∀ c c', Owns s.win s.list o c → Owns s.win s.list o c' → c = c'

/-- When raising `h` does what it should: a desktop, and a handle without a window, is not moved,
so its popups have to be in place already; a window that is not in the list has none; any other
needs its popups in a chain. -/
def Raisable (s : State) (h : Handle) : Prop :=
  match s.win h with
  | none => OwnedAbove s.win s.list s.list h
  | some w =>
    if w.desktop = true then OwnedAbove s.win s.list s.list h
    else h ∈ s.list → Chain s h w.owner

section Law

variable {s : State} {h owner : Handle} {w : Window} {p fuel : Nat}

theorem read_eq (s : State) : (fun h => (peek h s).1) = s.win := by
  funext h
  rw [peek_eq]

theorem chain_iff_stacked (hnd : s.list.Nodup) (hh : h ∈ s.list) :
    Stacked s.win ((s.list.erase h).insertIdx (raisedAt s.win s.list h owner) h)
      (raisedAt s.win s.list h owner) h ↔ Chain s h owner := by
  have howns := owns_congr s.win (perm_raisedAt s.win owner hh)
  have hmem : ∀ c, (∃ j, raisedAt s.win s.list h owner < j ∧
      ((s.list.erase h).insertIdx (raisedAt s.win s.list h owner) h)[j]? = some c) ↔
      c ∈ (s.list.erase h).drop (raisedAt s.win s.list h owner) := by
    intro c
    generalize raisedAt s.win s.list h owner = k
    rw [mem_iff_getElem?]
    constructor
    · rintro ⟨j, hj, hc⟩
      refine ⟨j - 1 - k, ?_⟩
      rw [getElem?_insertIdx_of_gt hj] at hc
      rw [getElem?_drop, ← hc]
      congr 1
      omega
    · rintro ⟨j, hc⟩
      refine ⟨k + j + 1, by omega, ?_⟩
      rw [getElem?_insertIdx_of_gt (by omega), Nat.add_sub_cancel, ← getElem?_drop, hc]
  constructor
  · intro hst
    refine ⟨fun c hc => (hmem c).mp (hst.above c (by rw [howns]; exact hc)), ?_⟩
    rw [← howns]
    exact hst.single
  · intro hc
    refine ⟨fun c hcc => (hmem c).mpr (hc.above c (by rw [← howns]; exact hcc)), ?_⟩
    rw [howns]
    exact hc.single

theorem raiseWindow_of_some {z : ZOrder}
    (hz : raiseZ (fun h => (peek h s).1) fuel h s.toZOrder = some z) :
    raiseWindow fuel h s = { s with toZOrder := z } := by
  rw [raiseWindow, hz]

theorem raised_self_iff : Raised s h s.toZOrder ↔ OwnedAbove s.win s.list s.list h :=
  ⟨fun hr => hr.above, fun ha => ⟨Kept.refl _, ha⟩⟩

theorem raise_of_raisable (hnd : s.list.Nodup) (hr : Raisable s h)
    (hfuel : (s.list.length + 1) * s.list.length ≤ fuel) :
    ∃ z, raiseZ (fun h => (peek h s).1) fuel h s.toZOrder = some z ∧ Raised s h z := by
  rw [read_eq]
  unfold Raisable at hr
  cases hw : s.win h with
  | none =>
    rw [hw] at hr
    exact ⟨s.toZOrder, by rw [raiseZ, hw], raised_self_iff.mpr hr⟩
  | some w =>
    rw [hw] at hr
    simp only at hr
    by_cases hdesk : w.desktop = true
    · rw [if_pos hdesk] at hr
      exact ⟨s.toZOrder, by rw [raiseZ, hw]; exact if_pos hdesk, raised_self_iff.mpr hr⟩
    · rw [if_neg hdesk] at hr
      by_cases hh : h ∈ s.list
      · have hperm := perm_raisedAt s.win w.owner hh
        let z1 : ZOrder :=
          { s.toZOrder with
            list := (s.list.erase h).insertIdx (raisedAt s.win s.list h w.owner) h }
        have hself : z1.list[raisedAt s.win s.list h w.owner]? = some h :=
          getElem?_insertIdx_self.trans (if_pos (raisedAt_le hh))
        obtain ⟨z, hrun, hk, habove⟩ := raiseOwned_of_stacked (hperm.nodup_iff.mpr hnd) hself
          (Nat.le_add_left _ _) ((chain_iff_stacked hnd hh).mpr (hr hh))
        have hlen : z1.list.length = s.list.length := hperm.length_eq
        rw [hlen] at hrun
        rw [OwnedAbove, owns_congr s.win hperm] at habove
        refine ⟨z, ?_, ⟨hk.perm.trans hperm, hk.stray⟩, habove⟩
        rw [raiseZ_eq hnd hh hw (by simpa using hdesk)]
        exact raiseOwnedFrom_mono hfuel hrun
      · refine ⟨s.toZOrder, ?_, raised_self_iff.mpr fun o c ho hoc => ?_⟩
        · rw [raiseZ, hw]
          simp only [if_neg hdesk, firstPos_eq_none.mpr hh]
        · rcases ReflTransGen.cases_head ho with rfl | ⟨d, hd, -⟩
          · exact absurd hoc.1 hh
          · exact absurd hd.1 hh

theorem raisable_of_raised {z : ZOrder} (hnd : s.list.Nodup)
    (hz : raiseZ (fun h => (peek h s).1) fuel h s.toZOrder = some z) (hr : Raised s h z) :
    Raisable s h := by
  rw [read_eq] at hz
  unfold Raisable
  cases hw : s.win h with
  | none =>
    rw [raiseZ, hw] at hz
    cases hz
    exact raised_self_iff.mp hr
  | some w =>
    simp only
    by_cases hdesk : w.desktop = true
    · rw [raiseZ, hw] at hz
      simp only [if_pos hdesk] at hz
      cases hz
      rw [if_pos hdesk]
      exact raised_self_iff.mp hr
    · rw [if_neg hdesk]
      intro hh
      have hperm := perm_raisedAt s.win w.owner hh
      rw [raiseZ_eq hnd hh hw (by simpa using hdesk)] at hz
      rw [← chain_iff_stacked hnd hh]
      exact stacked_of_kept hz (hperm.nodup_iff.mpr hnd)
        (getElem?_insertIdx_self.trans (if_pos (raisedAt_le hh)))
        ⟨hr.kept.perm.trans hperm.symm, hr.kept.stray⟩ fun j _ _ _ => Nat.zero_le j

/-- Raising does what it should for exactly these windows and lists. -/
theorem raise_iff (s : State) (hnd : s.list.Nodup) :
    (∀ h, RaiseLaw s h ↔ Raisable s h) ∧
      ∀ h p, s.list[p]? = some h → (RaiseOwnedLaw s h ↔ Stacked s.win s.list p h) := by
  refine ⟨fun h => ⟨?_, fun hr => ?_⟩, fun h p hp => ?_⟩
  · rintro ⟨fuel, z, hz, -, hr⟩
    exact raisable_of_raised hnd hz hr
  · obtain ⟨z, hz, hraised⟩ := raise_of_raisable hnd hr (Nat.le_refl _)
    exact ⟨_, z, hz, raiseWindow_of_some hz, hraised⟩
  · rw [← raiseOwnedWindows_iff hnd hp]
    unfold RaiseOwnedLaw
    rw [read_eq]
    constructor
    · rintro ⟨fuel, z, hz, hr⟩
      exact ⟨fuel, z, hz, hr.kept, hr.above⟩
    · rintro ⟨fuel, z, hz, hk, ha⟩
      exact ⟨fuel, z, hz, hk, ha⟩

end Law

def dialogDesk : State :=
  desk [plainWindow (text "Desktop") invalidHandle, plainWindow (text "Main") invalidHandle,
    plainWindow (text "Dialog") 1, plainWindow (text "Shell_TrayWnd") invalidHandle]

theorem raise_iff_dialogDesk :
    (∀ h, RaiseLaw dialogDesk h ↔ Raisable dialogDesk h) ∧
      ∀ h p, dialogDesk.list[p]? = some h →
        (RaiseOwnedLaw dialogDesk h ↔ Stacked dialogDesk.win dialogDesk.list p h) :=
  raise_iff dialogDesk (by decide)

/-- The window is moved below the taskbar, and the dialog, now below its owner, is written over the
taskbar. -/
example : (raiseZ dialogDesk.win 9 1 dialogDesk.toZOrder).map (·.list) = some [0, 2, 1, 2] := by
  decide +kernel

theorem dialogDesk_owns {o c : Handle} (h : Owns dialogDesk.win dialogDesk.list o c) :
    o = 1 ∧ c = 2 := by
  have hall : ∀ c ∈ List.range 4, ∀ o ∈ List.range 4,
      isOwned dialogDesk.win o c = true → o = 1 ∧ c = 2 := by decide +kernel
  exact hall c h.2.1 o h.1 h.2.2

/-- Raising the owner of a dialog loses the taskbar. -/
theorem raise_loses_taskbar :
    dialogDesk.list.Nodup ∧ dialogDesk.list.length ≤ maxWindows ∧
      (∀ c, ¬ TransGen (Owns dialogDesk.win dialogDesk.list) c c) ∧ ¬ RaiseLaw dialogDesk 1 := by
  have hnd : dialogDesk.list.Nodup := by decide
  refine ⟨hnd, by decide, fun c hc => ?_, ?_⟩
  · obtain ⟨b, hcb, -⟩ := TransGen.head'_iff.mp hc
    obtain ⟨d, -, hdc⟩ := TransGen.tail'_iff.mp hc
    have hself := (dialogDesk_owns hcb).1.symm.trans (dialogDesk_owns hdc).2
    exact absurd hself (by decide)
  · rintro ⟨fuel, z, hz, -, hr⟩
    have hchain := raisable_of_raised hnd hz hr
    have hwin : dialogDesk.win 1 = some (plainWindow (text "Main") invalidHandle) := by
      decide +kernel
    rw [Raisable, hwin] at hchain
    simp only [plainWindow, show text "Main" ≠ text "Desktop" by decide, decide_false,
      Bool.false_eq_true, if_false] at hchain
    have howns : Owns dialogDesk.win dialogDesk.list 1 2 := by
      refine ⟨?_, ?_, ?_⟩ <;> decide +kernel
    have habove := (hchain (by decide)).above 2 (.single howns)
    revert habove
    decide +kernel

end DiscouNT.Win32k
