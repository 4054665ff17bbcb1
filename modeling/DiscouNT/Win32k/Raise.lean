import DiscouNT.Lib.Shift
import DiscouNT.Win32k.Window

/-!
# Win32k.Raise

`raise_window` and `raise_owned_windows` of `win32/w32k/w32k.c`, which rearrange `window_list`.

The list is the state here; the windows are read through `read`, since neither function writes one.
`raise_owned_windows` goes on from an index it computes from where the owner was, so it may never
end: it is followed for `fuel` rounds, and `none` means that it was not done by then.
-/

namespace DiscouNT.Win32k

open Lib List

def windowIsTopmost (w : Window) : Bool :=
  w.exstyle.has wsExTopmost || decide (w.wndClass.className = text "Shell_TrayWnd") ||
    decide (w.wndClass.className = text "MenuPopup")

def firstPos (l : List Handle) (hwnd : Handle) : Option Nat := l.findIdx? (· == hwnd)

namespace ZOrder

def write (i : Nat) (hwnd : Handle) (z : ZOrder) : ZOrder :=
  if i < z.list.length then { z with list := z.list.set i hwnd }
  else { z with rest := z.rest.set (i - z.list.length) hwnd, stray := i :: z.stray }

/-- The entries between moved by one and `hwnd` written over the last of them. -/
def moveEntry (pos target : Nat) (hwnd : Handle) (z : ZOrder) : ZOrder :=
  if pos < target then
    { z with list := shiftDown 0 z.list pos (target - pos) }.write target hwnd
  else { z with list := shiftUp 0 z.list pos (pos - target) }.write target hwnd

def lastPos (z : ZOrder) (hwnd : Handle) : Option Nat :=
  ((List.range z.list.length).filter fun j => z.list[j]? == some hwnd).getLast?

/-- "Move the owned popup directly above its owner". -/
def placeAbove (owner childHwnd : Handle) (z : ZOrder) : ZOrder :=
  match z.lastPos owner, z.lastPos childHwnd with
  | some ownerPos, some childPos =>
    if childPos ≠ ownerPos + 1 then
      { z with list := shiftUp 0 z.list childPos (childPos - (ownerPos + 1)) }.write
        (ownerPos + 1) childHwnd
    else z
  | _, _ => z

def nextAfter (z : ZOrder) (owner : Handle) : Nat :=
  match z.lastPos owner with
  | some ownerPos => ownerPos + 2
  | none => 1

end ZOrder

def isOwned (read : Handle → Option Window) (owner childHwnd : Handle) : Bool :=
  (read childHwnd).any fun child => child.owner == owner

def raiseOwnedFrom (read : Handle → Option Window) :
    Nat → Handle → Nat → ZOrder → Option ZOrder
  | 0, _, _, _ => none
  | fuel + 1, owner, i, z =>
    match z.list[i]? with
    | none => some z
    | some childHwnd =>
      if isOwned read owner childHwnd then
        match raiseOwnedFrom read fuel childHwnd 0 (z.placeAbove owner childHwnd) with
        | none => none
        | some z' => raiseOwnedFrom read fuel owner (z.nextAfter owner) z'
      else raiseOwnedFrom read fuel owner (i + 1) z

def raiseOwnedWindows (read : Handle → Option Window) (fuel : Nat) (owner : Handle) (z : ZOrder) :
    Option ZOrder :=
  raiseOwnedFrom read fuel owner 0 z

def firstTopmost (read : Handle → Option Window) (z : ZOrder) : Nat :=
  (z.list.findIdx? fun h => (read h).any windowIsTopmost).getD z.list.length

/-- The `target` of `raise_window`, with both its assignments. -/
def raiseTarget (candidateTopmost : Bool) (first count pos : Nat) : Int :=
  let target : Int :=
    if candidateTopmost then count - 1 else if first = count then count - 1 else first - 1
  let target : Int :=
    if candidateTopmost then target else first - (if pos < first then 1 else 0)
  if target < 0 then 0 else target

/-- "An owned popup is always above its owner." -/
def aboveOwner (hwnd owner : Handle) (target : Nat) (z : ZOrder) : ZOrder :=
  if owner = invalidHandle then z
  else
    match firstPos z.list owner with
    | none => z
    | some ownerPos =>
      if target ≤ ownerPos then
        { z with list := shiftDown 0 z.list target (ownerPos - target) }.write ownerPos hwnd
      else z

def raiseZ (read : Handle → Option Window) (fuel : Nat) (hwnd : Handle) (z : ZOrder) :
    Option ZOrder :=
  match read hwnd with
  | none => some z
  | some candidate =>
    if candidate.desktop then some z
    else
      match firstPos z.list hwnd with
      | none => some z
      | some pos =>
        let target := (raiseTarget (windowIsTopmost candidate) (firstTopmost read z)
          z.list.length pos).toNat
        if pos = target then raiseOwnedWindows read fuel hwnd z
        else
          raiseOwnedWindows read fuel hwnd
            (aboveOwner hwnd candidate.owner target (z.moveEntry pos target hwnd))

def raiseWindow (fuel : Nat) (hwnd : Handle) (s : State) : State :=
  match raiseZ (fun h => (peek h s).1) fuel hwnd s.toZOrder with
  | none => { s with hung := true }
  | some z => { s with toZOrder := z }

/-- Nothing was lost, and nothing written beyond the list. -/
structure Kept (z z' : ZOrder) : Prop where
  perm : z'.list.Perm z.list
  stray : z'.stray = z.stray

/-- What any run of the loops does: it writes handles that it read in the list. -/
structure NoNew (z z' : ZOrder) : Prop where
  length : z'.list.length = z.list.length
  subset : z'.list ⊆ z.list
  stray : z.stray <:+ z'.stray

section Moves

variable {read : Handle → Option Window} {z z' z1 z2 : ZOrder} {h owner child : Handle}
  {i j p q fuel : Nat}

theorem firstPos_eq_none {l : List Handle} : firstPos l h = none ↔ h ∉ l := by
  rw [firstPos, findIdx?_eq_none_iff]
  constructor
  · intro hall hmem
    simpa using hall h hmem
  · intro hno x hx
    simp only [beq_eq_false_iff_ne]
    rintro rfl
    exact hno hx

theorem firstPos_spec {l : List Handle} (hl : firstPos l h = some i) : l[i]? = some h := by
  obtain ⟨hlt, hi, -⟩ := findIdx?_eq_some_iff_getElem.mp hl
  rw [getElem?_eq_getElem hlt]
  simpa using hi

theorem firstPos_eq {l : List Handle} (hnd : l.Nodup) (hi : l[i]? = some h) :
    firstPos l h = some i := by
  cases hl : firstPos l h with
  | none => exact absurd (mem_of_getElem? hi) (firstPos_eq_none.mp hl)
  | some j =>
    have hlt := (List.getElem?_eq_some_iff.mp hi).1
    rw [(getElem?_inj hlt hnd).mp (hi.trans (firstPos_spec hl).symm)]

theorem Kept.refl (z : ZOrder) : Kept z z := ⟨.refl _, rfl⟩

theorem Kept.trans (h1 : Kept z z1) (h2 : Kept z1 z2) : Kept z z2 :=
  ⟨h2.perm.trans h1.perm, h2.stray.trans h1.stray⟩

theorem Kept.nodup (hk : Kept z z') (hnd : z.list.Nodup) : z'.list.Nodup :=
  hk.perm.nodup_iff.mpr hnd

theorem NoNew.refl (z : ZOrder) : NoNew z z := ⟨rfl, List.Subset.refl _, suffix_rfl⟩

theorem NoNew.trans (h1 : NoNew z z1) (h2 : NoNew z1 z2) : NoNew z z2 :=
  ⟨h2.length.trans h1.length, List.Subset.trans h2.subset h1.subset, h1.stray.trans h2.stray⟩

theorem NoNew.kept (h1 : NoNew z z1) (h2 : NoNew z1 z2) (hnd : z.list.Nodup) (hk : Kept z z2) :
    Kept z z1 ∧ Kept z1 z2 := by
  have hall : z.list ⊆ z1.list := fun x hx => h2.subset (hk.perm.mem_iff.mpr hx)
  have hperm : z1.list.Perm z.list := perm_of_subset hnd hall h1.length.le
  have hstray : z1.stray = z.stray := by
    refine (h1.stray.eq_of_length_le ?_).symm
    exact (h2.stray.length_le).trans (by rw [hk.stray])
  exact ⟨⟨hperm, hstray⟩, ⟨hk.perm.trans hperm.symm, hk.stray.trans hstray.symm⟩⟩

namespace ZOrder

theorem lastPos_spec (hl : z.lastPos h = some i) : z.list[i]? = some h := by
  have hmem := mem_of_getLast? hl
  simpa using (mem_filter.mp hmem).2

theorem lastPos_eq (hnd : z.list.Nodup) (hi : z.list[i]? = some h) : z.lastPos h = some i := by
  have hlt := (List.getElem?_eq_some_iff.mp hi).1
  cases hl : z.lastPos h with
  | none =>
    have hmem : i ∈ (List.range z.list.length).filter fun j => z.list[j]? == some h :=
      mem_filter.mpr ⟨mem_range.mpr hlt, by rw [hi, beq_self_eq_true]⟩
    rw [lastPos, getLast?_eq_none_iff] at hl
    rw [hl] at hmem
    cases hmem
  | some j => rw [(getElem?_inj hlt hnd).mp (hi.trans (lastPos_spec hl).symm)]

theorem noNew_write (hh : h ∈ z.list) : NoNew z (z.write i h) := by
  unfold write
  split
  · refine ⟨by simp, fun x hx => ?_, suffix_rfl⟩
    rcases mem_or_eq_of_mem_set hx with hx | rfl
    · exact hx
    · exact hh
  · exact ⟨rfl, List.Subset.refl _, suffix_cons _ _⟩

theorem placeAbove_noNew (owner : Handle) (hc : child ∈ z.list) : NoNew z (z.placeAbove owner child) := by
  unfold placeAbove
  split
  · rename_i ownerPos childPos ho hcp
    split
    · have hlt := (List.getElem?_eq_some_iff.mp (lastPos_spec hcp)).1
      let z1 : ZOrder := { z with list := shiftUp 0 z.list childPos (childPos - (ownerPos + 1)) }
      have hshift : NoNew z z1 := ⟨length_shiftUp, shiftUp_subset (Nat.sub_le _ _) hlt, suffix_rfl⟩
      by_cases hin : child ∈ z1.list
      · exact hshift.trans (noNew_write hin)
      · refine ⟨?_, fun x hx => ?_, ?_⟩
        · unfold write
          split <;> simp
        · unfold write at hx
          split at hx
          · rcases mem_or_eq_of_mem_set hx with hx | rfl
            · exact hshift.subset hx
            · exact hc
          · exact hshift.subset hx
        · unfold write
          split
          · exact suffix_rfl
          · exact suffix_cons _ _
    · exact NoNew.refl z
  · exact NoNew.refl z

theorem placeAbove_above (hnd : z.list.Nodup) (ho : z.list[p]? = some owner)
    (hc : z.list[q]? = some child) (hpq : p < q) :
    z.placeAbove owner child = { z with list := (z.list.eraseIdx q).insertIdx (p + 1) child } := by
  have hlt := (List.getElem?_eq_some_iff.mp hc).1
  rw [placeAbove, lastPos_eq hnd ho, lastPos_eq hnd hc]
  simp only
  split
  · rw [write, if_pos (by simp only [length_shiftUp]; omega)]
    simp only [shiftUp_set (show p + 1 ≤ q by omega) hlt]
  · rename_i hq
    have hq : q = p + 1 := by omega
    subst hq
    have hset : (shiftUp 0 z.list (p + 1) (p + 1 - (p + 1))).set (p + 1) child =
        (z.list.eraseIdx (p + 1)).insertIdx (p + 1) child := shiftUp_set (Nat.le_refl _) hlt
    rw [Nat.sub_self, shiftUp, set_self hc] at hset
    rw [← hset]

theorem placeAbove_below (hnd : z.list.Nodup) (ho : z.list[p]? = some owner)
    (hc : z.list[q]? = some child) (hqp : q ≤ p) : ¬ Kept z (z.placeAbove owner child) := by
  intro hk
  rw [placeAbove, lastPos_eq hnd ho, lastPos_eq hnd hc] at hk
  simp only at hk
  rw [if_pos (by omega), show q - (p + 1) = 0 by omega, shiftUp, write] at hk
  split at hk
  · rename_i hlt
    have hnext := getElem?_eq_getElem hlt
    have hne : child ≠ z.list[p + 1] := by
      rintro rfl
      have := (getElem?_inj hlt hnd).mp (hnext.trans hc.symm)
      omega
    exact not_mem_set hnd hnext hne (hk.perm.mem_iff.mpr (getElem_mem hlt))
  · have := congrArg List.length hk.stray
    simp at this

end ZOrder

end Moves

end DiscouNT.Win32k
