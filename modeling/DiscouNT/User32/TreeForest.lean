import DiscouNT.Lib.Forests
import DiscouNT.Lib.History
import DiscouNT.User32.Tree
import Mathlib.Data.Fintype.Card

/-!
# User32.TreeForest

What the table of tree items holds: a forest for each tree view. A message keeps the forests unless
it inserts an item under the slot that the item itself gets, or deletes an item at the top that is
not the first of the tree view the message is sent to.
-/

namespace DiscouNT.User32

open Lib Lib.Sibs List Function Option

def handles : Handles Slot HTreeItem where
  null := .null
  ref := .slot
  ref_inj := fun _ _ h => by cases h; rfl
  ref_ne_null := by simp

def links (items : TreeItems) : Links Slot HTreeItem where
  used i := (items i).used = true
  parent i := (items i).parent
  first i := (items i).firstChild
  next i := (items i).nextSibling

def Named (items : TreeItems) : Prop := ∀ i, (items i).used = true → (items i).handle = .slot i

structure Forest (s : TreeState) (trees : Nat → Sibs Slot) : Prop where
  named : Named s.items
  nodup : ∀ w, (trees w).slots.Nodup
  apart : ∀ v w i, i ∈ (trees v).slots → i ∈ (trees w).slots → v = w
  covers : ∀ i, (s.items i).used = true → ∃ w, i ∈ (trees w).slots
  stored : ∀ w, (trees w).Stored handles (links s.items) .null
  root : ∀ w, (s.windows w).treeRoot = (trees w).root handles

section Lookup

variable {items items' : TreeItems} {h : HTreeItem} {i j : Slot} {p : HTreeItem} {b c : Sibs Slot}
  {l : List Slot} {n : Nat}

theorem treeItem_some (hn : Named items) (h' : u32TreeItem items h = some i) :
    h = .slot i ∧ (items i).used = true := by
  rw [u32TreeItem] at h'
  split_ifs at h'
  obtain ⟨hu, hk⟩ := findKey_some h'
  exact ⟨hk.symm.trans (hn i hu), hu⟩

theorem treeItem_slot (hn : Named items) (hu : (items i).used = true) :
    u32TreeItem items (.slot i) = some i := by
  rw [u32TreeItem, if_neg (by simp)]
  rcases hf : findKey U32TreeItem.used U32TreeItem.handle items (.slot i) with _ | j
  · exact absurd (hn i hu) (findKey_eq_none.mp hf i hu)
  · obtain ⟨huj, hk⟩ := findKey_some hf
    rw [hn j huj] at hk
    cases hk
    rfl

@[simp] theorem treeItem_null : u32TreeItem items .null = none := rfl

theorem treeItem_root (hn : Named items) (hs : b.Stored handles (links items) p) :
    u32TreeItem items (b.root handles) = b.spine.head? := by
  cases b with
  | nil => rfl
  | node i c s => exact treeItem_slot hn (hs.used mem_cons_self)

theorem alloc_some (h : u32TreeAlloc items = some i) : (items i).used = false := by
  simpa using firstSlot_some h

theorem sameCell_of_eq (h : items' i = items i) : SameCell (links items) (links items') i := by
  constructor <;> simp [links, h]

theorem slots_length_le (hnd : b.slots.Nodup) : b.slots.length ≤ maxU32TreeItems := by
  have hcard := hnd.length_le_card
  rwa [Fintype.card_fin] at hcard

theorem spine_length_lt (hnd : b.slots.Nodup) : b.spine.length < maxU32TreeItems + 1 :=
  Nat.lt_succ_of_le (b.spine_sublist.length_le.trans (slots_length_le hnd))

theorem walkSiblings_spine (hn : Named items) (hs : b.Stored handles (links items) p)
    (hlen : b.spine.length < n) (go : U32TreeItem → Bool) :
    walkSiblings items go n b.spine.head? = some (b.spine.find? fun i => !go (items i)) := by
  induction b generalizing n with
  | nil =>
    obtain ⟨n, rfl⟩ := Nat.exists_eq_succ_of_ne_zero (Nat.ne_of_gt hlen)
    rfl
  | node i c s _ ih =>
    obtain ⟨n, rfl⟩ := Nat.exists_eq_succ_of_ne_zero (Nat.ne_of_gt (Nat.zero_lt_of_lt hlen))
    obtain ⟨-, -, -, hnext, -, hrest⟩ := hs
    rw [spine_node, head?_cons, walkSiblings]
    by_cases hgo : go (items i) = true
    · have hnext : (items i).nextSibling = s.root handles := hnext
      rw [if_pos hgo, hnext, treeItem_root hn hrest, ih hrest (by simpa using hlen),
        find?_cons_of_neg (by simp [hgo])]
    · rw [if_neg hgo, find?_cons_of_pos (by simp [hgo])]

def clear (l : List Slot) (items : TreeItems) : TreeItems :=
  fun i => if i ∈ l then {} else items i

theorem clear_of_mem (h : i ∈ l) : clear l items i = {} := if_pos h

theorem clear_of_not_mem (h : i ∉ l) : clear l items i = items i := if_neg h

theorem clear_clear (l l' : List Slot) : clear l' (clear l items) = clear (l ++ l') items := by
  funext i
  by_cases hl : i ∈ l <;> by_cases hl' : i ∈ l' <;> simp [clear, hl, hl']

theorem update_clear (i : Slot) : update (clear l items) i {} = clear (i :: l) items := by
  funext j
  by_cases hj : j = i
  · subst hj
    rw [update_self, clear_of_mem mem_cons_self]
  · rw [update_of_ne hj]
    simp [clear, hj]

theorem Named.clear (hn : Named items) (l : List Slot) : Named (clear l items) := by
  intro i hu
  by_cases hi : i ∈ l
  · rw [clear_of_mem hi] at hu
    cases hu
  · rw [clear_of_not_mem hi] at hu ⊢
    exact hn i hu

theorem stored_clear (hs : b.Stored handles (links items) p) (hl : ∀ i ∈ b.slots, i ∉ l) :
    b.Stored handles (links (clear l items)) p :=
  hs.congr fun i hi => sameCell_of_eq (clear_of_not_mem (hl i hi))

theorem freeChildren_stored (hn : Named items) (hs : b.Stored handles (links items) p)
    (hnd : b.slots.Nodup) (hfuel : 2 * b.slots.length + 1 ≤ n) :
    freeChildren n (b.root handles) items = some (clear b.slots items) := by
  induction b generalizing n items p with
  | nil =>
    obtain ⟨n, rfl⟩ := Nat.exists_eq_succ_of_ne_zero (Nat.ne_of_gt (Nat.zero_lt_of_lt hfuel))
    rfl
  | node i c s ihc ihs =>
    rw [slots_node, length_cons, length_append] at hfuel
    obtain ⟨n, rfl⟩ : ∃ m, n = m + 2 := ⟨n - 2, by omega⟩
    have hu := hs.used mem_cons_self
    obtain ⟨-, -, hfirst, hnext, hc, hrest⟩ := hs
    simp only [slots_node, nodup_cons, mem_append, not_or] at hnd
    obtain ⟨⟨hic, his⟩, hnd⟩ := hnd
    obtain ⟨hndc, hnds, hdisj⟩ := nodup_append.mp hnd
    have hfirst : (items i).firstChild = c.root handles := hfirst
    have hnext : (items i).nextSibling = s.root handles := hnext
    have hrest : s.Stored handles (links (clear (i :: c.slots) items)) p := by
      refine stored_clear hrest fun j hj => ?_
      simp only [mem_cons, not_or]
      exact ⟨fun heq => his (heq ▸ hj), fun hjc => hdisj j hjc j hj rfl⟩
    have hroot : (Sibs.node i c s).root handles = .slot i := rfl
    have hnode : u32TreeFree (n + 1) (.slot i) items = some (clear (i :: c.slots) items) := by
      rw [u32TreeFree, treeItem_slot hn hu]
      simp only [hfirst]
      rw [ihc hn hc hndc (by omega), map_some, update_clear]
    rw [hroot, freeChildren, if_neg (by simp)]
    simp only [treeItem_slot hn hu, hnode, bind_some, hnext]
    rw [ihs (hn.clear _) hrest hnds (by omega), clear_clear]
    rfl

theorem treeFree_stored (hn : Named items) (hu : (items i).used = true)
    (hfirst : (items i).firstChild = c.root handles)
    (hs : c.Stored handles (links items) (.slot i)) (hnd : c.slots.Nodup) :
    u32TreeFree freeFuel (.slot i) items = some (clear (i :: c.slots) items) := by
  have hlen := slots_length_le hnd
  rw [freeFuel, u32TreeFree, treeItem_slot hn hu]
  simp only [hfirst]
  rw [freeChildren_stored hn hs hnd (by omega), map_some, update_clear]

end Lookup

/-! ## Deleting -/

section Delete

variable {items items' : TreeItems} {s s' : TreeState} {trees : Nat → Sibs Slot} {h : HTreeItem}
  {i j k : Slot} {b b' c d : Sibs Slot} {w : Nat} {lParam : HTreeItem}

@[simp] theorem setFirstChild_used : (setFirstChild items k h j).used = (items j).used := by
  by_cases hj : j = k <;> simp [setFirstChild, hj]

@[simp] theorem setFirstChild_handle : (setFirstChild items k h j).handle = (items j).handle := by
  by_cases hj : j = k <;> simp [setFirstChild, hj]

@[simp] theorem setFirstChild_self :
    setFirstChild items k h k = { items k with firstChild := h } := update_self ..

theorem setFirstChild_of_ne (hj : j ≠ k) : setFirstChild items k h j = items j :=
  update_of_ne hj _ _

@[simp] theorem setNextSibling_used : (setNextSibling items k h j).used = (items j).used := by
  by_cases hj : j = k <;> simp [setNextSibling, hj]

@[simp] theorem setNextSibling_handle : (setNextSibling items k h j).handle = (items j).handle := by
  by_cases hj : j = k <;> simp [setNextSibling, hj]

@[simp] theorem setNextSibling_self :
    setNextSibling items k h k = { items k with nextSibling := h } := update_self ..

theorem setNextSibling_of_ne (hj : j ≠ k) : setNextSibling items k h j = items j :=
  update_of_ne hj _ _

/-- Once `i` is unlinked from the forest `b`, there is `b'` without it, and `d` below it. -/
structure Unlinked (items items' : TreeItems) (i : Slot) (b b' d : Sibs Slot) : Prop where
  slots : b.slots.Perm (b'.slots ++ i :: d.slots)
  stored : b'.Stored handles (links items') .null
  below : d.Stored handles (links items') (.slot i)
  first : (items' i).firstChild = d.root handles
  next : (items' i).nextSibling = (items i).nextSibling
  outside : ∀ j, j ∉ b.slots → items' j = items j
  used : ∀ j, (items' j).used = (items j).used
  handle : ∀ j, (items' j).handle = (items j).handle
  root : b'.root handles =
    if b.root handles = .slot i then (items i).nextSibling else b.root handles

theorem unlinked_under (hs : b.Stored handles (links items) .null) (hnd : b.slots.Nodup)
    (hk : k ∈ b.slots) (hi : i ∈ (b.under k).spine) (hroot : b.root handles ≠ .slot i)
    (hout : ∀ l, l ≠ k → l ∉ (b.under k).slots → items' l = items l)
    (hbelow : ∀ l ∈ i :: ((b.under k).under i).slots, items' l = items l)
    (hused : ∀ l, (items' l).used = (items l).used)
    (hhandle : ∀ l, (items' l).handle = (items l).handle)
    (hkp : (items' k).parent = (items k).parent)
    (hkn : (items' k).nextSibling = (items k).nextSibling)
    (hkf : (items' k).firstChild = ((b.under k).dropTop i).root handles)
    (hdrop : ((b.under k).dropTop i).Stored handles (links items') (.slot k)) :
    Unlinked items items' i b (b.mapUnder k (dropTop i)) ((b.under k).under i) := by
  obtain ⟨hc, -⟩ := hs.under hk
  obtain ⟨hd, hdfirst⟩ := hc.under (mem_slots_of_spine hi)
  obtain ⟨rest, -, hb, hmap⟩ := exists_rest hk
  have hslots := slots_dropTop hi (hnd.sublist (under_sublist k b))
  obtain ⟨hstored, hroot'⟩ : (b.mapUnder k (dropTop i)).Stored handles (links items') .null ∧
      (b.mapUnder k (dropTop i)).root handles = b.root handles := by
    refine hs.mapUnder hnd hk (fun l _ hlk hl => sameCell_of_eq (hout l hlk hl)) ?_ hkp hkn hkf hdrop
    exact (hused k).trans (hs.used hk)
  constructor
  · have hold := hb.trans (hslots.append_left rest)
    have hnew := (hmap (dropTop i)).symm.append_right (i :: ((b.under k).under i).slots)
    rw [append_assoc] at hnew
    exact hold.trans hnew
  · exact hstored
  · exact hd.congr fun l hl => sameCell_of_eq (hbelow l (mem_cons_of_mem _ hl))
  · rw [hbelow i mem_cons_self]
    exact hdfirst
  · rw [hbelow i mem_cons_self]
  · intro l hl
    exact hout l (fun heq => hl (heq ▸ hk)) fun hlc => hl ((under_sublist k b).subset hlc)
  · exact hused
  · exact hhandle
  · rw [if_neg hroot, hroot']

theorem unlink_first (hn : Named items) (hs : b.Stored handles (links items) .null)
    (hnd : b.slots.Nodup) (hk : k ∈ b.slots) (hp : (items i).parent = .slot k)
    (hr : (b.under k).root handles = .slot i) (hroot : b.root handles ≠ .slot i) :
    ∃ items' b' d, u32TreeUnlink items i = some items' ∧ Unlinked items items' i b b' d := by
  obtain ⟨hc, hfirst⟩ := hs.under hk
  obtain ⟨hdrops, hnext⟩ := hc.dropFirst hr
  have hi : i ∈ (b.under k).spine := mem_spine_of_root hr
  have hkc : k ∉ (b.under k).slots := not_mem_under hnd
  have hic := mem_slots_of_spine hi
  have hslots := slots_dropTop hi (hnd.sublist (under_sublist k b))
  have hsame : ∀ l ∈ (b.under k).slots, setFirstChild items k (items i).nextSibling l = items l :=
    fun l hl => setFirstChild_of_ne fun heq => hkc (heq ▸ hl)
  refine ⟨setFirstChild items k (items i).nextSibling, _, _, ?_,
    unlinked_under hs hnd hk hi hroot ?_ ?_ ?_ ?_ ?_ ?_ ?_ ?_⟩
  · have hfirst : (items k).firstChild = (b.under k).root handles := hfirst
    rw [u32TreeUnlink, hp, treeItem_slot hn (hs.used hk)]
    simp only [hfirst, hr, hn i (hc.used hic), if_true]
  · exact fun l hl _ => setFirstChild_of_ne hl
  · exact fun l hl => hsame l (hslots.symm.subset (mem_append_right _ hl))
  · simp
  · simp
  · simp
  · simp
  · rw [setFirstChild_self]
    exact hnext
  · exact hdrops.congr fun l hl =>
      sameCell_of_eq (hsame l (hslots.symm.subset (mem_append_left _ hl)))

theorem unlink_next (hn : Named items) (hs : b.Stored handles (links items) .null)
    (hnd : b.slots.Nodup) (hk : k ∈ b.slots) (hp : (items i).parent = .slot k)
    (hi : i ∈ (b.under k).spine) (hr : (b.under k).root handles ≠ .slot i)
    (hroot : b.root handles ≠ .slot i) :
    ∃ items' b' d, u32TreeUnlink items i = some items' ∧ Unlinked items items' i b b' d := by
  obtain ⟨hc, hfirst⟩ := hs.under hk
  have hndc := hnd.sublist (under_sublist k b)
  obtain ⟨j, hj, hfind, hstore⟩ := hc.dropNext hndc hi hr
  have hslots := slots_dropTop hi hndc
  have hjdrop := mem_slots_of_spine hj
  have hjc : j ∈ (b.under k).slots := hslots.symm.subset (mem_append_left _ hjdrop)
  have hkj : k ≠ j := fun heq => not_mem_under hnd (heq ▸ hjc)
  have hsame : ∀ l, l ≠ j → setNextSibling items j (items i).nextSibling l = items l :=
    fun l hl => setNextSibling_of_ne hl
  have hhandle := hn i (hc.used (mem_slots_of_spine hi))
  obtain ⟨hdrops, hdroot⟩ := hstore (links (setNextSibling items j (items i).nextSibling))
    (fun l _ hl => sameCell_of_eq (hsame l hl)) (by simpa [links] using hc.used hjc)
    (by simp [links]) (by simp [links]) (by simp [links])
  have hfirst : (items k).firstChild = (b.under k).root handles := hfirst
  refine ⟨setNextSibling items j (items i).nextSibling, _, _, ?_,
    unlinked_under hs hnd hk hi hroot ?_ ?_ ?_ ?_ ?_ ?_ ?_ hdrops⟩
  · have hgo : (fun l => !((items l).nextSibling != (items i).handle)) =
        fun l => decide ((links items).next l = handles.ref i) := by
      funext l
      rw [hhandle, Bool.eq_iff_iff, decide_eq_true_iff]
      simp [links, handles]
    rw [u32TreeUnlink, hp, treeItem_slot hn (hs.used hk)]
    simp only [hfirst, hhandle, if_neg hr, treeItem_root hn hc]
    rw [hhandle] at hgo
    rw [walkSiblings_spine hn hc (spine_length_lt hndc), hgo, hfind]
    rfl
  · exact fun l _ hl => hsame l fun heq => hl (heq ▸ hjc)
  · intro l hl
    refine hsame l ?_
    rintro rfl
    exact (nodup_append.mp (hslots.nodup_iff.mp hndc)).2.2 l hjdrop l hl rfl
  · simp
  · simp
  · rw [hsame k hkj]
  · rw [hsame k hkj]
  · rw [hsame k hkj, hdroot, hfirst]

theorem Forest.change (h : Forest s trees) (hnamed : Named s'.items) (hnd : b.slots.Nodup)
    (hstored : b.Stored handles (links s'.items) .null)
    (hroot : ∀ v, (s'.windows v).treeRoot = if v = w then b.root handles else (s.windows v).treeRoot)
    (hsame : ∀ i, i ∉ (trees w).slots → (s.items i).used = true → s'.items i = s.items i)
    (hfresh : ∀ i ∈ b.slots, i ∈ (trees w).slots ∨ (s.items i).used = false)
    (hused : ∀ i, (s'.items i).used = true →
      i ∈ b.slots ∨ i ∉ (trees w).slots ∧ (s.items i).used = true) :
    Forest s' (update trees w b) := by
  have hother : ∀ v i, v ≠ w → i ∈ (trees v).slots → i ∉ b.slots := by
    intro v i hv hi hib
    rcases hfresh i hib with hiw | hfree
    · exact hv (h.apart v w i hi hiw)
    · exact absurd ((h.stored v).used hi) (by simp [links, hfree])
  constructor
  · exact hnamed
  · intro v
    by_cases hv : v = w
    · rw [hv, update_self]
      exact hnd
    · rw [update_of_ne hv]
      exact h.nodup v
  · intro v v' i hi hi'
    by_cases hv : v = w <;> by_cases hv' : v' = w
    · rw [hv, hv']
    · rw [hv, update_self] at hi
      rw [update_of_ne hv'] at hi'
      exact absurd hi (hother v' i hv' hi')
    · rw [hv', update_self] at hi'
      rw [update_of_ne hv] at hi
      exact absurd hi' (hother v i hv hi)
    · rw [update_of_ne hv] at hi
      rw [update_of_ne hv'] at hi'
      exact h.apart v v' i hi hi'
  · intro i hi
    rcases hused i hi with hib | ⟨hiw, hold⟩
    · exact ⟨w, by rwa [update_self]⟩
    · obtain ⟨v, hv⟩ := h.covers i hold
      have hvw : v ≠ w := fun heq => hiw (heq ▸ hv)
      exact ⟨v, by rwa [update_of_ne hvw]⟩
  · intro v
    by_cases hv : v = w
    · rw [hv, update_self]
      exact hstored
    · rw [update_of_ne hv]
      refine (h.stored v).congr fun i hi => sameCell_of_eq (hsame i ?_ ((h.stored v).used hi))
      exact fun hiw => hv (h.apart v w i hi hiw)
  · intro v
    rw [hroot v]
    by_cases hv : v = w
    · rw [if_pos hv, hv, update_self]
    · rw [if_neg hv, update_of_ne hv]
      exact h.root v

theorem unlink_top (hp : (items i).parent = .null) : u32TreeUnlink items i = some items := by
  rw [u32TreeUnlink, hp, treeItem_null]

theorem Forest.parent_null (h : Forest s trees) (hi : i ∈ (trees w).spine) :
    (s.items i).parent = .null := (h.stored w).parent hi

theorem Forest.unlink (h : Forest s trees) (hi : i ∈ (trees w).slots)
    (hgood : (s.items i).parent = .null → (trees w).root handles = .slot i) :
    ∃ items' b' d, u32TreeUnlink s.items i = some items' ∧
      Unlinked s.items items' i (trees w) b' d := by
  have hs := h.stored w
  have hnd := h.nodup w
  rcases hs.parent_cases hnd hi with hspine | ⟨k, hk, hp, hspine⟩
  · have hp := h.parent_null hspine
    have hr := hgood hp
    obtain ⟨hdrop, hnext⟩ := hs.dropFirst hr
    obtain ⟨hd, hdfirst⟩ := hs.under hi
    refine ⟨s.items, _, _, unlink_top hp, slots_dropTop hspine hnd, hdrop, hd, hdfirst, rfl,
      fun _ _ => rfl, fun _ => rfl, fun _ => rfl, ?_⟩
    rw [if_pos hr]
    exact hnext.symm
  · have hroot : (trees w).root handles ≠ .slot i := by
      intro hr
      have hnull := h.parent_null (mem_spine_of_root hr)
      exact absurd (hp.symm.trans hnull) (by simp [handles])
    by_cases hr : ((trees w).under k).root handles = .slot i
    · exact unlink_first h.named hs hnd hk hp hr hroot
    · exact unlink_next h.named hs hnd hk hp hspine hr hroot

theorem deleteItem_eq (hf : u32TreeItem s.items (deleteTarget s w lParam) = some i)
    (hn : Named s.items) {items1 items2 : TreeItems}
    (hunlink : u32TreeUnlink s.items i = some items1)
    (hfree : u32TreeFree freeFuel (.slot i) items1 = some items2) :
    ∃ win, tvmDeleteItem s w lParam =
        some (true, { items := items2, windows := update s.windows w win }) ∧
      win.treeRoot = if (s.windows w).treeRoot = .slot i then (items1 i).nextSibling
        else (s.windows w).treeRoot := by
  have htarget := (treeItem_some hn hf).1
  rw [tvmDeleteItem]
  simp only [hf, hunlink, bind_some]
  rw [htarget, hfree]
  refine ⟨_, rfl, ?_⟩
  split_ifs <;> simp_all

theorem Forest.delete (h : Forest s trees)
    (hgood : ∀ i, u32TreeItem s.items (deleteTarget s w lParam) = some i →
      (s.items i).parent = .null → (s.windows w).treeRoot = .slot i) :
    ∃ r s' trees', tvmDeleteItem s w lParam = some (r, s') ∧ Forest s' trees' := by
  rcases hf : u32TreeItem s.items (deleteTarget s w lParam) with _ | i
  · exact ⟨false, s, trees, by rw [tvmDeleteItem]; simp only [hf], h⟩
  obtain ⟨htarget, hiu⟩ := treeItem_some h.named hf
  obtain ⟨v, hv⟩ := h.covers i hiu
  have hroot_mem : ∀ u, (s.windows u).treeRoot = .slot i → u = v := fun u hu =>
    h.apart u v i (mem_slots_of_spine (mem_spine_of_root ((h.root u).symm.trans hu))) hv
  have hgood := hgood i hf
  have hvw : (trees v).root handles = .slot i → w = v := fun hr =>
    hroot_mem w (hgood (h.parent_null (mem_spine_of_root hr)))
  obtain ⟨items', b', d, hunlink, U⟩ := h.unlink hv fun hp => by
    rw [← hroot_mem w (hgood hp), ← h.root]
    exact hgood hp
  have hnodup := U.slots.nodup_iff.mp (h.nodup v)
  obtain ⟨hndb, hndi, hdisj⟩ := nodup_append.mp hnodup
  have hnamed : Named items' := by
    intro l hl
    rw [U.handle]
    exact h.named l (by rwa [← U.used])
  have hmem : ∀ l, l ∈ (trees v).slots ↔ l ∈ b'.slots ∨ l ∈ i :: d.slots := fun l => by
    rw [U.slots.mem_iff, mem_append]
  have hfree := treeFree_stored hnamed ((U.used i).trans hiu) U.first U.below
    (nodup_cons.mp hndi).2
  obtain ⟨win, heq, hwin⟩ := deleteItem_eq hf h.named hunlink hfree
  refine ⟨true, _, update trees v b', heq, ?_⟩
  refine h.change (hnamed.clear _) hndb ?_ ?_ ?_ ?_ ?_
  · exact stored_clear U.stored fun l hl hmem => hdisj l hl l hmem rfl
  · intro u
    dsimp only
    rw [update_apply]
    by_cases huw : u = w
    · subst huw
      rw [if_pos rfl, hwin, U.next, U.root]
      by_cases huv : u = v
      · subst huv
        rw [if_pos rfl, h.root]
      · rw [if_neg fun hr => huv (hroot_mem u hr), if_neg huv]
    · rw [if_neg huw]
      by_cases huv : u = v
      · subst huv
        rw [if_pos rfl, U.root, if_neg fun hr => huw (hvw hr).symm, h.root]
      · rw [if_neg huv]
  · intro l hl _
    have hl' : l ∉ i :: d.slots := fun hmem' => hl ((hmem l).mpr (.inr hmem'))
    exact (clear_of_not_mem hl').trans (U.outside l hl)
  · exact fun l hl => .inl ((hmem l).mpr (.inl hl))
  · intro l hl
    dsimp only at hl
    have hl' : l ∉ i :: d.slots := by
      intro hmem
      rw [clear_of_mem hmem] at hl
      cases hl
    rw [clear_of_not_mem hl', U.used] at hl
    by_cases hlv : l ∈ (trees v).slots
    · exact .inl (((hmem l).mp hlv).resolve_right hl')
    · exact .inr ⟨hlv, hl⟩

theorem Forest.delete_bad (h : Forest s trees)
    (hf : u32TreeItem s.items (deleteTarget s w lParam) = some i)
    (hp : (s.items i).parent = .null) (hr : (s.windows w).treeRoot ≠ .slot i) {r : Bool}
    (hs' : tvmDeleteItem s w lParam = some (r, s')) {trees' : Nat → Sibs Slot} :
    ¬ Forest s' trees' := by
  intro h'
  obtain ⟨-, hiu⟩ := treeItem_some h.named hf
  obtain ⟨v, hv⟩ := h.covers i hiu
  have hs := h.stored v
  have hspine : i ∈ (trees v).spine := by
    refine (hs.parent_cases (h.nodup v) hv).resolve_right ?_
    rintro ⟨k, -, hk, -⟩
    exact absurd (hp.symm.trans hk) (by simp [handles])
  obtain ⟨hd, hdfirst⟩ := hs.under hv
  have hndu := (h.nodup v).sublist (under_sublist i (trees v))
  obtain ⟨win, heq, hwin⟩ := deleteItem_eq hf h.named (unlink_top hp)
    (treeFree_stored h.named hiu hdfirst hd hndu)
  rw [heq, some.injEq, Prod.mk.injEq] at hs'
  obtain ⟨-, rfl⟩ := hs'
  have hfree : ∀ u, i ∉ (trees' u).slots := by
    intro u hu
    have hused : (clear (i :: ((trees v).under i).slots) s.items i).used = true :=
      (h'.stored u).used hu
    rw [clear_of_mem mem_cons_self] at hused
    cases hused
  by_cases hroot : (trees v).root handles = .slot i
  · have hvw : v ≠ w := fun heq => hr (by rw [← heq, h.root, hroot])
    have hlink := h'.root v
    dsimp only at hlink
    rw [update_of_ne hvw, h.root, hroot] at hlink
    exact hfree v (mem_slots_of_spine (mem_spine_of_root hlink.symm))
  · obtain ⟨j, hj, hfind, -⟩ := hs.dropNext (h.nodup v) hspine hroot
    have hslots := slots_dropTop hspine (h.nodup v)
    have hjdrop := mem_slots_of_spine hj
    have hjnot : j ∉ i :: ((trees v).under i).slots := fun hmem =>
      (nodup_append.mp (hslots.nodup_iff.mp (h.nodup v))).2.2 j hjdrop j hmem rfl
    have hcell : clear (i :: ((trees v).under i).slots) s.items j = s.items j :=
      clear_of_not_mem hjnot
    have hju : (s.items j).used = true := hs.used (hslots.symm.subset (mem_append_left _ hjdrop))
    have hnext := find?_some hfind
    obtain ⟨u, hu⟩ := h'.covers j ((congrArg U32TreeItem.used hcell).trans hju)
    refine hfree u ((h'.stored u).next_mem hu ?_)
    rw [decide_eq_true_iff] at hnext
    exact (congrArg U32TreeItem.nextSibling hcell).trans hnext

end Delete

/-! ## Inserting -/

section Insert

variable {items : TreeItems} {s s' : TreeState} {trees : Nat → Sibs Slot} {p h : HTreeItem}
  {i j k n : Slot} {b c c' : Sibs Slot} {w : Nat} {hParent hInsertAfter : HTreeItem}
  {parent : Option Slot} {state stateMask : UInt32}

/-- The item `n` was put into the list `c` of the children of `parent`, which became `c'`. -/
structure Linked (s s' : TreeState) (w : Nat) (n : Slot) (parent : Option Slot) (p : HTreeItem)
    (c' : Sibs Slot) : Prop where
  stored : c'.Stored handles (links s'.items) p
  same : ∀ l, l ∉ c'.slots → some l ≠ parent → s'.items l = s.items l
  first : ∀ k, parent = some k → s'.items k = { s.items k with firstChild := c'.root handles }
  root : ∀ v, (s'.windows v).treeRoot =
    if parent = none ∧ v = w then c'.root handles else (s.windows v).treeRoot
  used : ∀ l, (s'.items l).used = (s.items l).used
  handle : ∀ l, (s'.items l).handle = (s.items l).handle

structure Loose (items : TreeItems) (n : Slot) (p : HTreeItem) : Prop where
  used : (items n).used = true
  parent : (items n).parent = p
  first : (items n).firstChild = .null
  next : (items n).nextSibling = .null

theorem setHead_linked {t : TreeState} (hn : Loose s.items n p)
    (hc : c.Stored handles (links s.items) p) (hnc : n ∉ c.slots)
    (hpar : ∀ k, parent = some k → k ≠ n ∧ k ∉ c.slots)
    (ht : t = { s with items := setNextSibling s.items n (c.root handles) }) :
    Linked s (setHead t w (.slot n) parent) w n parent p (addFirst n c) := by
  have hadd : (addFirst n c).Stored handles (links t.items) p := by
    subst ht
    refine Stored.addFirst (hc.congr fun l hl => sameCell_of_eq (setNextSibling_of_ne ?_)) ?_ ?_ ?_ ?_
    · exact fun heq => hnc (heq ▸ hl)
    · simpa [links] using hn.used
    · simpa [links] using hn.parent
    · simpa [links, handles] using hn.first
    · simp [links]
  have hother : ∀ l, l ∉ (addFirst n c).slots → t.items l = s.items l := by
    intro l hl
    subst ht
    exact setNextSibling_of_ne fun heq => hl (heq ▸ mem_cons_self)
  cases parent with
  | none =>
    refine ⟨hadd, fun l hl _ => hother l hl, fun k hk => (by cases hk), fun v => ?_, ?_, ?_⟩
    · subst ht
      by_cases hv : v = w <;> simp [setHead, hv, addFirst, handles]
    · subst ht
      simp [setHead]
    · subst ht
      simp [setHead]
  | some k =>
    obtain ⟨hkn, hkc⟩ := hpar k rfl
    have hk : k ∉ (addFirst n c).slots := by
      rw [slots_addFirst, mem_cons, not_or]
      exact ⟨hkn, hkc⟩
    refine ⟨hadd.congr fun l hl => sameCell_of_eq ?_, fun l hl hlk => ?_, fun k' hk' => ?_,
      fun v => ?_, ?_, ?_⟩
    · exact setFirstChild_of_ne fun heq => hk (heq ▸ hl)
    · exact (setFirstChild_of_ne fun heq => hlk (congrArg some heq)).trans (hother l hl)
    · cases hk'
      dsimp only [setHead]
      rw [setFirstChild_self, hother k hk]
      rfl
    · subst ht
      simp [setHead]
    · subst ht
      simp [setHead]
    · subst ht
      simp [setHead]

theorem setNext_linked (hn : Loose s.items n p) (hc : c.Stored handles (links s.items) p)
    (hnd : c.slots.Nodup) (hnc : n ∉ c.slots) (hpar : ∀ k, parent = some k → k ≠ n ∧ k ∉ c.slots)
    (hhead : getHead s w parent = c.root handles) (hj : c.spine.getLast? = some j) :
    Linked s { s with items := setNextSibling s.items j (.slot n) } w n parent p (addLast n c) := by
  have hjc : j ∈ c.slots := mem_slots_of_spine (mem_of_getLast? hj)
  have hnj : n ≠ j := fun heq => hnc (heq ▸ hjc)
  have hsame : ∀ l, l ≠ j → setNextSibling s.items j (.slot n) l = s.items l :=
    fun l hl => setNextSibling_of_ne hl
  obtain ⟨hstored, hroot⟩ :
      (addLast n c).Stored handles (links (setNextSibling s.items j (.slot n))) p ∧
        (addLast n c).root handles = c.root handles := by
    refine hc.addLast hnd hj (fun l _ hl => sameCell_of_eq (hsame l hl)) ?_ ?_ ?_ ?_ ?_ ?_ ?_ ?_
    · simpa [links] using hc.used hjc
    · simp [links]
    · simp [links]
    · simp [links, handles]
    · simpa [links] using hn.used
    · exact (congrArg U32TreeItem.parent (hsame n hnj)).trans hn.parent
    · exact (congrArg U32TreeItem.firstChild (hsame n hnj)).trans hn.first
    · exact (congrArg U32TreeItem.nextSibling (hsame n hnj)).trans hn.next
  have hmem : ∀ l, l ∈ (addLast n c).slots ↔ l = n ∨ l ∈ c.slots := fun l => by
    rw [(slots_addLast n c).mem_iff, mem_cons]
  constructor
  · exact hstored
  · exact fun l hl _ => hsame l fun heq => hl ((hmem l).mpr (.inr (heq ▸ hjc)))
  · rintro k rfl
    have hk := hsame k fun heq => (hpar k rfl).2 (heq ▸ hjc)
    dsimp only
    rw [hk, hroot, ← hhead]
    rfl
  · intro v
    rw [hroot]
    split_ifs with hv
    · rw [hv.2, ← hhead, hv.1]
      rfl
    · rfl
  · simp
  · simp

theorem linkItem_linked (hnamed : Named s.items) (hn : Loose s.items n p)
    (hc : c.Stored handles (links s.items) p) (hnd : c.slots.Nodup) (hnc : n ∉ c.slots)
    (hpar : ∀ k, parent = some k → k ≠ n ∧ k ∉ c.slots)
    (hhead : getHead s w parent = c.root handles) (hInsertAfter : HTreeItem) :
    ∃ s' f, linkItem s w n parent hInsertAfter = some s' ∧ (f c).slots.Perm (n :: c.slots) ∧
      (f = addFirst n ∨ f = addLast n) ∧ Linked s s' w n parent p (f c) := by
  rw [linkItem]
  dsimp only
  rw [hhead]
  by_cases hafter : hInsertAfter = .tviFirst ∨ c.root handles = .null
  · rw [if_pos hafter]
    exact ⟨_, addFirst n, rfl, List.Perm.refl _, .inl rfl, setHead_linked hn hc hnc hpar rfl⟩
  · rw [if_neg hafter]
    have hgo : (fun l => !((s.items l).nextSibling != HTreeItem.null)) =
        fun l => decide ((links s.items).next l = handles.null) := by
      funext l
      rw [Bool.eq_iff_iff, decide_eq_true_iff]
      simp [links, handles]
    rw [treeItem_root hnamed hc, walkSiblings_spine hnamed hc (spine_length_lt hnd), hgo, hc.find_last]
    rcases hj : c.spine.getLast? with _ | j
    · have hnil : c.spine = [] := getLast?_eq_none_iff.mp hj
      cases c with
      | nil => exact absurd (.inr rfl) hafter
      | node a d t => cases hnil
    · exact ⟨_, addLast n, rfl, slots_addLast n c, .inr rfl,
        setNext_linked hn hc hnd hnc hpar hhead hj⟩

structure Taken (s : TreeState) (n : Slot) (hParent : HTreeItem) (parent : Option Slot)
    (items : TreeItems) : Prop where
  same : ∀ l, l ≠ n → items l = s.items l
  handle : (items n).handle = .slot n
  loose : Loose items n (parent.elim .null .slot)
  found : ∀ k, parent = some k → hParent = .slot k ∧ (items k).used = true
  own : hParent = .slot n → parent = some n

theorem Taken.named (ht : Taken s n hParent parent items) (hn : Named s.items) : Named items := by
  intro l hl
  by_cases hln : l = n
  · rw [hln, ht.handle]
  · rw [ht.same l hln] at hl ⊢
    exact hn l hl

theorem insertItem_full (ha : u32TreeAlloc s.items = none) (w : Nat)
    (hParent hInsertAfter : HTreeItem) (state stateMask : UInt32) :
    tvmInsertItem s w hParent hInsertAfter state stateMask = some (.null, s) := by
  unfold tvmInsertItem
  split
  · rfl
  · rename_i m hm
    cases ha.symm.trans hm

theorem insertItem_eq (hn : Named s.items) (ha : u32TreeAlloc s.items = some n) (w : Nat)
    (hParent hInsertAfter : HTreeItem) (state stateMask : UInt32) :
    ∃ parent items, Taken s n hParent parent items ∧
      tvmInsertItem s w hParent hInsertAfter state stateMask =
        (linkItem { s with items := items } w n parent hInsertAfter).map fun s => (.slot n, s) := by
  let items1 := update s.items n
    { used := true, handle := .slot n, state := state &&& stateMask }
  have hn1 : Named items1 := by
    intro l hl
    by_cases hln : l = n
    · simp [items1, hln]
    · simp only [items1, update_of_ne hln] at hl ⊢
      exact hn l hl
  have hfound : ∀ k, insertParent items1 hParent = some k →
      hParent = .slot k ∧ (items1 k).used = true := by
    intro k hk
    rw [insertParent] at hk
    split_ifs at hk
    exact treeItem_some hn1 hk
  have hhandle : parentHandle items1 (insertParent items1 hParent) =
      (insertParent items1 hParent).elim .null .slot := by
    rcases hk : insertParent items1 hParent with _ | k
    · rfl
    · exact hn1 k (hfound k hk).2
  refine ⟨insertParent items1 hParent, update items1 n
    { items1 n with parent := parentHandle items1 (insertParent items1 hParent) }, ?_, ?_⟩
  · constructor
    · intro l hl
      simp [items1, hl]
    · simp [items1]
    · rw [← hhandle]
      constructor <;> simp [items1]
    · intro k hk
      obtain ⟨hpar, hu⟩ := hfound k hk
      refine ⟨hpar, ?_⟩
      by_cases hkn : k = n
      · simp [hkn, items1]
      · rwa [update_of_ne hkn]
    · rintro rfl
      rw [insertParent, if_neg (by simp)]
      exact treeItem_slot hn1 (by simp [items1])
  · unfold tvmInsertItem
    split
    · rename_i hnone
      cases ha.symm.trans hnone
    · rename_i m hm
      obtain rfl := some.inj (ha.symm.trans hm)
      rfl

theorem Forest.grow (h : Forest s trees) (hfree : (s.items n).used = false)
    (hnamed : Named s'.items) (hslots : b.slots.Perm (n :: (trees w).slots))
    (hstored : b.Stored handles (links s'.items) .null)
    (hroot : ∀ v, (s'.windows v).treeRoot = if v = w then b.root handles else (s.windows v).treeRoot)
    (hsame : ∀ i, i ∉ (trees w).slots → i ≠ n → s'.items i = s.items i)
    (hused : ∀ i, i ≠ n → (s'.items i).used = (s.items i).used) :
    Forest s' (update trees w b) := by
  have hnot : n ∉ (trees w).slots := fun hmem => by
    have hused : (s.items n).used = true := (h.stored w).used hmem
    rw [hfree] at hused
    cases hused
  refine h.change hnamed (hslots.nodup_iff.mpr (nodup_cons.mpr ⟨hnot, h.nodup w⟩)) hstored hroot
    ?_ ?_ ?_
  · intro i hi hu
    refine hsame i hi ?_
    rintro rfl
    rw [hfree] at hu
    cases hu
  · intro i hi
    rcases mem_cons.mp (hslots.subset hi) with rfl | hi
    · exact .inr hfree
    · exact .inl hi
  · intro i hi
    by_cases hin : i = n
    · exact .inl (hslots.symm.subset (by rw [hin]; exact mem_cons_self))
    · rw [hused i hin] at hi
      by_cases hiw : i ∈ (trees w).slots
      · exact .inl (hslots.symm.subset (mem_cons_of_mem _ hiw))
      · exact .inr ⟨hiw, hi⟩

theorem Linked.named (hl : Linked s s' w n parent p c) (hn : Named s.items) : Named s'.items := by
  intro l hu
  rw [hl.used] at hu
  rw [hl.handle]
  exact hn l hu

theorem Forest.insert (h : Forest s trees)
    (hgood : ∀ n, u32TreeAlloc s.items = some n → hParent ≠ .slot n) :
    ∃ r s' trees', tvmInsertItem s w hParent hInsertAfter state stateMask = some (r, s') ∧
      Forest s' trees' := by
  rcases ha : u32TreeAlloc s.items with _ | n
  · exact ⟨.null, s, trees, insertItem_full ha w hParent hInsertAfter state stateMask, h⟩
  obtain ⟨parent, items, ht, heq⟩ := insertItem_eq h.named ha w hParent hInsertAfter state stateMask
  have hfree := alloc_some ha
  have hnot : ∀ v, n ∉ (trees v).slots := fun v hv => by
    have hused : (s.items n).used = true := (h.stored v).used hv
    rw [hfree] at hused
    cases hused
  have hold : ∀ v, ∀ l ∈ (trees v).slots, items l = s.items l := fun v l hl =>
    ht.same l fun heq => hnot v (heq ▸ hl)
  have hstored : ∀ v, (trees v).Stored handles (links items) .null := fun v =>
    (h.stored v).congr fun l hl => sameCell_of_eq (hold v l hl)
  have hnamed := ht.named h.named
  have hothers : ∀ l, l ≠ n → (items l).used = (s.items l).used := fun l hl =>
    congrArg U32TreeItem.used (ht.same l hl)
  rw [heq]
  cases parent with
  | none =>
    obtain ⟨s', f, hlink, hslots, -, L⟩ :=
      @linkItem_linked { s with items := items } .null n (trees w) w none hnamed ht.loose (hstored w)
        (h.nodup w) (hnot w) (fun k hk => by cases hk) (h.root w) hInsertAfter
    rw [hlink]
    refine ⟨_, s', _, rfl, h.grow hfree (L.named hnamed) hslots L.stored ?_ ?_ ?_⟩
    · exact fun v => by simpa using L.root v
    · intro i hi hin
      have hif : i ∉ (f (trees w)).slots := by
        rw [hslots.mem_iff, mem_cons, not_or]
        exact ⟨hin, hi⟩
      exact (L.same i hif (by simp)).trans (ht.same i hin)
    · exact fun i hin => (L.used i).trans (hothers i hin)
  | some k =>
    obtain ⟨hpk, hku⟩ := ht.found k rfl
    have hkn : k ≠ n := fun heq => hgood n ha (heq ▸ hpk)
    obtain ⟨v, hk⟩ := h.covers k ((hothers k hkn).symm.trans hku)
    obtain ⟨hc, hfirst⟩ := (hstored v).under hk
    have hndc := (h.nodup v).sublist (under_sublist k (trees v))
    have hnc : n ∉ ((trees v).under k).slots := fun hmem =>
      hnot v ((under_sublist k (trees v)).subset hmem)
    have hkc : k ∉ ((trees v).under k).slots := not_mem_under (h.nodup v)
    obtain ⟨s', f, hlink, hslots, -, L⟩ :=
      @linkItem_linked { s with items := items } (.slot k) n ((trees v).under k) w (some k) hnamed
        ht.loose hc hndc hnc (fun k' hk' => by cases hk'; exact ⟨hkn, hkc⟩) hfirst hInsertAfter
    obtain ⟨rest, -, hb, hmap⟩ := exists_rest hk
    have hfirst := L.first k rfl
    have hif : ∀ i, i ∉ ((trees v).under k).slots → i ≠ n → i ∉ (f ((trees v).under k)).slots := by
      intro i hi hin
      rw [hslots.mem_iff, mem_cons, not_or]
      exact ⟨hin, hi⟩
    have hgrown : ((trees v).mapUnder k f).slots.Perm (n :: (trees v).slots) :=
      (hmap f).trans ((hslots.append_left rest).trans
        (perm_middle.trans (hb.symm.cons n)))
    obtain ⟨hmapped, hroot⟩ := (hstored v).mapUnder (h.nodup v) hk
      (fun i hi hik hic => sameCell_of_eq
        (L.same i (hif i hic fun heq => hnot v (heq ▸ hi)) (by simpa using hik)))
      ((L.used k).trans hku) (by simp [links, hfirst]) (by simp [links, hfirst])
      (by simp [links, hfirst]) L.stored
    rw [hlink]
    refine ⟨_, s', _, rfl, h.grow hfree (L.named hnamed) hgrown hmapped ?_ ?_ ?_⟩
    · intro u
      have hu : (s'.windows u).treeRoot = (s.windows u).treeRoot := by simpa using L.root u
      rw [hu, hroot]
      split_ifs with huv
      · rw [huv, h.root]
      · rfl
    · intro i hi hin
      have hic : i ∉ ((trees v).under k).slots := fun hmem =>
        hi ((under_sublist k (trees v)).subset hmem)
      have hik : i ≠ k := fun heq => hi (heq ▸ hk)
      exact (L.same i (hif i hic hin) (by simpa using hik)).trans (ht.same i hin)
    · exact fun i hin => (L.used i).trans (hothers i hin)

theorem Forest.insert_bad (h : Forest s trees) (ha : u32TreeAlloc s.items = some n)
    (hbad : hParent = .slot n) {r : HTreeItem}
    (hs' : tvmInsertItem s w hParent hInsertAfter state stateMask = some (r, s'))
    {trees' : Nat → Sibs Slot} : ¬ Forest s' trees' := by
  intro h'
  obtain ⟨parent, items, ht, heq⟩ := insertItem_eq h.named ha w hParent hInsertAfter state stateMask
  obtain rfl := ht.own hbad
  have hself : (s'.items n).used = true ∧ (s'.items n).firstChild = .slot n := by
    rw [heq, linkItem, getHead, ht.loose.first] at hs'
    dsimp only at hs'
    rw [if_pos (.inr rfl), map_some, some.injEq, Prod.mk.injEq] at hs'
    rw [← hs'.2]
    simp [setHead, ht.loose.used]
  obtain ⟨u, hu⟩ := h'.covers n hself.1
  obtain ⟨-, hfirst⟩ := (h'.stored u).under hu
  have hfirst : (s'.items n).firstChild = ((trees' u).under n).root handles := hfirst
  rw [hself.2] at hfirst
  exact not_mem_under (h'.nodup u) (mem_slots_of_spine (mem_spine_of_root hfirst.symm))

end Insert

/-! ## Expanding, and runs -/

section Runs

variable {s s' : TreeState} {trees : Nat → Sibs Slot}

theorem Forest.congr (h : Forest s trees) (hw : s'.windows = s.windows)
    (hused : ∀ i, (s'.items i).used = (s.items i).used)
    (hhandle : ∀ i, (s'.items i).handle = (s.items i).handle)
    (hcell : ∀ i, SameCell (links s.items) (links s'.items) i) : Forest s' trees where
  named i hi := by
    rw [hhandle]
    exact h.named i ((hused i).symm.trans hi)
  nodup := h.nodup
  apart := h.apart
  covers i hi := h.covers i ((hused i).symm.trans hi)
  stored w := (h.stored w).congr fun i _ => hcell i
  root w := by rw [hw, h.root]

theorem Forest.expand (h : Forest s trees) (wParam : Nat) (lParam : HTreeItem) :
    Forest (tvmExpand s wParam lParam).2 trees := by
  have hsame : ∀ i, ∃ state, (tvmExpand s wParam lParam).2.items i =
      { s.items i with state := state } := by
    intro i
    unfold tvmExpand
    split
    · exact ⟨(s.items i).state, rfl⟩
    · rename_i node _
      by_cases hi : i = node
      · subst hi
        simp only [update_self]
        split_ifs <;> exact ⟨_, rfl⟩
      · exact ⟨(s.items i).state, update_of_ne hi _ _⟩
  refine h.congr ?_ (fun i => ?_) (fun i => ?_) (fun i => ?_)
  · unfold tvmExpand
    split <;> rfl
  · obtain ⟨state, hi⟩ := hsame i
    rw [hi]
  · obtain ⟨state, hi⟩ := hsame i
    rw [hi]
  · obtain ⟨state, hi⟩ := hsame i
    constructor <;> simp [links, hi]

/-- The message does not insert an item under the slot that the item itself gets, and does not delete
an item at the top unless it is the first one of its window. -/
def Careful (s : TreeState) : TreeMessage → Prop
  | .insert _ hParent _ _ _ => ∀ n, u32TreeAlloc s.items = some n → hParent ≠ .slot n
  | .delete w lParam => ∀ i, u32TreeItem s.items (deleteTarget s w lParam) = some i →
      (s.items i).parent = .null → (s.windows w).treeRoot = .slot i
  | .expand .. => True

theorem Forest.step (h : Forest s trees) {m : TreeMessage} (hgood : Careful s m) :
    ∃ s' trees', treeStep s m = some s' ∧ Forest s' trees' := by
  cases m with
  | insert w hParent hInsertAfter state stateMask =>
    obtain ⟨r, s', trees', heq, h'⟩ :=
      @Forest.insert s trees w hParent hInsertAfter state stateMask h hgood
    exact ⟨s', trees', by rw [treeStep, heq]; rfl, h'⟩
  | delete w lParam =>
    obtain ⟨r, s', trees', heq, h'⟩ := h.delete hgood
    exact ⟨s', trees', by rw [treeStep, heq]; rfl, h'⟩
  | expand w wParam lParam => exact ⟨_, trees, rfl, h.expand wParam lParam⟩

theorem Forest.step_bad (h : Forest s trees) {m : TreeMessage} (hbad : ¬ Careful s m)
    (hs' : treeStep s m = some s') (trees' : Nat → Sibs Slot) : ¬ Forest s' trees' := by
  cases m with
  | insert w hParent hInsertAfter state stateMask =>
    simp only [Careful, not_forall, not_not] at hbad
    obtain ⟨n, ha, hpar⟩ := hbad
    rw [treeStep, map_eq_some_iff] at hs'
    obtain ⟨⟨r, t⟩, heq, rfl⟩ := hs'
    exact h.insert_bad ha hpar heq
  | delete w lParam =>
    simp only [Careful, not_forall] at hbad
    obtain ⟨i, hf, hp, hr⟩ := hbad
    rw [treeStep, map_eq_some_iff] at hs'
    obtain ⟨⟨r, t⟩, heq, rfl⟩ := hs'
    exact h.delete_bad hf hp hr heq
  | expand w wParam lParam => exact absurd trivial hbad

/-- The message returned, and the links and roots are those of forests. -/
def InForests (s : Option TreeState) : Prop := ∃ t trees, s = some t ∧ Forest t trees

theorem emptyTrees_forest (scroll : Nat → Int) : Forest (emptyTrees scroll) fun _ => .nil where
  named i hi := by cases hi
  nodup _ := nodup_nil
  apart v w i hi := by cases hi
  covers i hi := by cases hi
  stored _ := trivial
  root _ := rfl

theorem run_inForests_iff (scroll : Nat → Int) (ms : List TreeMessage) :
    (∀ pre post, ms = pre ++ post → InForests (treeRun scroll pre)) ↔
      ∀ pre m post, ms = pre ++ m :: post → ∀ s, treeRun scroll pre = some s → Careful s m := by
  refine @promise_iff_good _ _ (fun s m => s.bind fun s => treeStep s m) InForests InForests
    (fun _ _ => True) (fun s m => ∀ t, s = some t → Careful t m) _
    ⟨_, _, rfl, emptyTrees_forest scroll⟩ (fun _ h => h) ?_ ms fun _ _ _ _ => trivial
  rintro _ m ⟨s, trees, rfl, h⟩ -
  constructor
  · intro hgood
    obtain ⟨s', trees', heq, h'⟩ := h.step (hgood s rfl)
    exact ⟨s', trees', heq, h'⟩
  · rintro hbad ⟨s', trees', heq, h'⟩
    refine h.step_bad ?_ heq trees' h'
    exact fun hgood => hbad fun t ht => by cases ht; exact hgood

end Runs

end DiscouNT.User32
