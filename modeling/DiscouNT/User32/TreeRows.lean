import DiscouNT.User32.TreeForest

/-!
# User32.TreeRows

The rows of a tree view. Drawing descends into the children of an expanded item, and hit-testing goes
from each visible item to the next; in a forest both see the same items in the same order, up to the
first one that is expanded and has no children, where hit-testing ends.
-/

namespace DiscouNT.User32

open Lib Lib.Sibs List Option

section Rows

variable {items : TreeItems} {s : TreeState} {trees : Nat → Sibs Slot} {h u : HTreeItem}
  {p : HTreeItem} {b c : Sibs Slot} {l r : List Slot} {n d : Nat} {w : Nat}

def bare (it : U32TreeItem) : Bool := expanded it && it.firstChild == .null

def shown (items : TreeItems) (i : Slot) : Bool := expanded (items i)

/-- `l`, and then `r` unless something in `l` stops. -/
def thenUnless {α : Type} (stop : α → Bool) : List α → List α → List α
  | [], r => r
  | i :: l, r => i :: if stop i then [] else thenUnless stop l r

theorem thenUnless_append {α : Type} (stop : α → Bool) (l l' r : List α) :
    thenUnless stop (l ++ l') r = thenUnless stop l (thenUnless stop l' r) := by
  induction l with
  | nil => rfl
  | cons i l ih => simp [thenUnless, ih]

theorem thenUnless_length_le {α : Type} (stop : α → Bool) (l : List α) :
    (thenUnless stop l []).length ≤ l.length := by
  induction l with
  | nil => exact Nat.le_refl 0
  | cons i l ih =>
    rw [thenUnless]
    split_ifs
    · simp
    · simpa using ih

theorem thenUnless_getElem? {α : Type} (stop : α → Bool) (l : List α) (k : Nat) :
    (thenUnless stop l [])[k]? = if ∀ j ∈ l.take k, stop j = false then l[k]? else none := by
  induction l generalizing k with
  | nil => simp [thenUnless]
  | cons i l ih =>
    cases k with
    | zero => simp [thenUnless]
    | succ k =>
      by_cases hi : stop i = true
      · simp [thenUnless, hi]
      · simp [thenUnless, hi, ih]

inductive Passes (items : TreeItems) : HTreeItem → List Slot → Prop where
  | stop : Passes items .null []
  | next {h h' : HTreeItem} {i : Slot} {l : List Slot} (hi : u32TreeItem items h = some i)
      (hnext : u32TreeNextVisible items i = some h') (hrest : Passes items h' l) :
      Passes items h (i :: l)

theorem climb_some {i : Slot} {s : Sibs Slot} (hnext : (items i).nextSibling = s.root handles) (hp : (items i).parent = p)
    (hup : ∀ n, d < n → climb items n (u32TreeItem items p) = some u) {m : Nat} (hm : d + 1 < m) :
    climb items m (some i) = some (if s.root handles = .null then u else s.root handles) := by
  obtain ⟨m, rfl⟩ := Nat.exists_eq_succ_of_ne_zero (Nat.ne_of_gt (Nat.zero_lt_of_lt hm))
  rw [climb, hnext, hp]
  by_cases hs : s.root handles = .null
  · rw [if_neg (not_not.mpr hs), if_pos hs]
    exact hup m (by omega)
  · rw [if_pos hs, if_neg hs]

theorem passes_forest (hn : Named items) (hs : b.Stored handles (links items) p) (hb : b ≠ .nil)
    (hup : ∀ n, d < n → climb items n (u32TreeItem items p) = some u)
    (hlen : d + b.slots.length ≤ maxU32TreeItems) (hr : Passes items u r) :
    Passes items (b.root handles)
      (thenUnless (fun i => bare (items i)) (b.visible (shown items)) r) := by
  induction b generalizing p d u r with
  | nil => exact absurd rfl hb
  | node i c s ihc ihs =>
    have hi : u32TreeItem items (.slot i) = some i := treeItem_slot hn (hs.used mem_cons_self)
    obtain ⟨-, hp, hfirst, hnext, hc, hrest⟩ := hs
    have hfirst : (items i).firstChild = c.root handles := hfirst
    rw [slots_node, length_cons, length_append] at hlen
    -- what follows the tree of `i`
    have hafter : Passes items (if s.root handles = .null then u else s.root handles)
        (thenUnless (fun i => bare (items i)) (s.visible (shown items)) r) := by
      split_ifs with hnil
      · rw [root_eq_null.mp hnil]
        exact hr
      · exact ihs hrest (fun heq => hnil (root_eq_null.mpr heq)) hup (by omega) hr
    have hclimb := fun m => @climb_some items u p d i s hnext hp hup m
    rw [visible]
    by_cases he : expanded (items i) = true
    · have hvis : u32TreeNextVisible items i = some (c.root handles) := by
        rw [u32TreeNextVisible, if_pos he, hfirst]
      by_cases hnil : c = .nil
      · have hbare : bare (items i) = true := by simp [bare, he, hfirst, hnil, handles]
        rw [thenUnless, if_pos hbare]
        refine .next hi hvis ?_
        rw [hnil]
        exact .stop
      · have hbare : bare (items i) = false := by
          have hroot : c.root handles ≠ .null := fun heq => hnil (root_eq_null.mp heq)
          simpa [bare, he, hfirst] using hroot
        rw [thenUnless, if_neg (by simp [hbare]), if_pos (show shown items i = true from he),
          thenUnless_append]
        refine .next hi hvis (ihc (d := d + 1) hc hnil (fun m hm => ?_) ?_ hafter)
        · rw [show u32TreeItem items (handles.ref i) = some i from hi]
          exact hclimb m hm
        · omega
    · have hbare : bare (items i) = false := by simp [bare, he]
      rw [thenUnless, if_neg (by simp [hbare]), if_neg (by simpa [shown] using he), nil_append]
      refine .next hi ?_ hafter
      rw [u32TreeNextVisible, if_neg he]
      exact hclimb _ (by omega)

def rowItem (l : List Slot) (current row : Int) : HTreeItem :=
  (l[((row - current) / 16).toNat]?).elim .null .slot

theorem rowItem_cons {i : Slot} {current row : Int} (h : current ≤ row) :
    rowItem (i :: l) current row =
      if row < current + 16 then .slot i else rowItem l (current + 16) row := by
  unfold rowItem
  split_ifs with hrow
  · rw [show ((row - current) / 16).toNat = 0 by omega]
    rfl
  · rw [show ((row - current) / 16).toNat = ((row - (current + 16)) / 16).toNat + 1 by omega,
      getElem?_cons_succ]

theorem hitFrom_passes (hn : Named items) (hl : Passes items h l) {current row : Int}
    (hrow : current ≤ row) (hlen : l.length < n) :
    hitFrom items row n h current = some (rowItem l current row) := by
  induction hl generalizing n current with
  | stop =>
    obtain ⟨n, rfl⟩ := Nat.exists_eq_succ_of_ne_zero (Nat.ne_of_gt hlen)
    rfl
  | @next h h' i l hi hnext _ ih =>
    obtain ⟨n, rfl⟩ := Nat.exists_eq_succ_of_ne_zero (Nat.ne_of_gt (Nat.zero_lt_of_lt hlen))
    rw [hitFrom, hi, rowItem_cons hrow]
    simp only [hrow, true_and]
    split_ifs with hin
    · rw [(treeItem_some hn hi).1]
    · rw [hnext, bind_some, ih (by omega) (by simpa using hlen)]

def passed (items : TreeItems) (b : Sibs Slot) : List Slot :=
  thenUnless (fun i => bare (items i)) (b.visible (shown items)) []

theorem Forest.passes (h : Forest s trees) (w : Nat) :
    Passes s.items (s.windows w).treeRoot (passed s.items (trees w)) := by
  rw [h.root]
  by_cases hb : trees w = .nil
  · rw [hb]
    exact .stop
  · refine passes_forest h.named (h.stored w) hb (d := 0) (u := .null) (fun n hn => ?_) ?_ .stop
    · obtain ⟨n, rfl⟩ := Nat.exists_eq_succ_of_ne_zero (Nat.ne_of_gt hn)
      rfl
    · rw [Nat.zero_add]
      exact slots_length_le (h.nodup w)

theorem Forest.hit (h : Forest s trees) (w : Nat) (y : Int) :
    u32TreeHit s w y = some (if y + (s.windows w).scrollPos < 0 then .null
      else rowItem (passed s.items (trees w)) 0 (y + (s.windows w).scrollPos)) := by
  unfold u32TreeHit
  simp only
  split_ifs with hneg
  · rfl
  · refine hitFrom_passes h.named (h.passes w) (by omega) ?_
    have hpassed := (thenUnless_length_le (fun i => bare (s.items i)) ((trees w).visible (shown s.items)))
    have hvis := visible_length_le (shown s.items) (trees w)
    have hlen := slots_length_le (h.nodup w)
    unfold passed
    omega

def OnScreen (drawY : Int) : Prop := -16 ≤ drawY ∧ drawY < 4096

instance (drawY : Int) : Decidable (OnScreen drawY) := inferInstanceAs (Decidable (_ ∧ _))

/-- The items of `l` that are drawn, each with its height, when the first row is at `y`. -/
def rowsFrom (scroll : Int) : Int → List Slot → List (HTreeItem × Int)
  | _, [] => []
  | y, i :: l => (if OnScreen (y - scroll) then [(.slot i, y - scroll)] else []) ++
      rowsFrom scroll (y + 16) l

theorem rowsFrom_append (scroll y : Int) (l l' : List Slot) :
    rowsFrom scroll y (l ++ l') =
      rowsFrom scroll y l ++ rowsFrom scroll (y + 16 * l.length) l' := by
  induction l generalizing y with
  | nil => simp [rowsFrom]
  | cons i l ih =>
    have hy : y + 16 + 16 * (l.length : Int) = y + 16 * ((l.length + 1 : Nat) : Int) := by omega
    rw [cons_append, rowsFrom, rowsFrom, ih, append_assoc, hy, length_cons]

def place (r : DrawnRow) : HTreeItem × Int := (r.item, r.drawY)

theorem drawItems_forest (hn : Named items) (win : TreeWindow)
    (hs : b.Stored handles (links items) p) (hfuel : b.slots.length < n) (depth : Nat) (y : Int) :
    ∃ rows, u32TreeDrawItems items win n (b.root handles) depth y =
        some (rows, y + 16 * (b.visible (shown items)).length) ∧
      rows.map place = rowsFrom win.scrollPos y (b.visible (shown items)) := by
  induction b generalizing n p depth y with
  | nil =>
    obtain ⟨n, rfl⟩ := Nat.exists_eq_succ_of_ne_zero (Nat.ne_of_gt hfuel)
    exact ⟨[], by simp [u32TreeDrawItems, visible, handles], rfl⟩
  | node i c s ihc ihs =>
    obtain ⟨n, rfl⟩ := Nat.exists_eq_succ_of_ne_zero (Nat.ne_of_gt (Nat.zero_lt_of_lt hfuel))
    have hi : u32TreeItem items ((Sibs.node i c s).root handles) = some i :=
      treeItem_slot hn (hs.used mem_cons_self)
    obtain ⟨-, -, hfirst, hnext, hc, hrest⟩ := hs
    have hfirst : (items i).firstChild = c.root handles := hfirst
    have hnext : (items i).nextSibling = s.root handles := hnext
    rw [slots_node, length_cons, length_append] at hfuel
    have hfc : c.slots.length < n := by omega
    have hfs : s.slots.length < n := by omega
    have hbelow : ∃ below, (if expanded (items i) then
          u32TreeDrawItems items win n (items i).firstChild (depth + 1) (y + 16)
          else some ([], y + 16)) = some (below, y + 16 +
            16 * (if shown items i then c.visible (shown items) else []).length) ∧
        below.map place = rowsFrom win.scrollPos (y + 16)
          (if shown items i then c.visible (shown items) else []) := by
      by_cases he : expanded (items i) = true
      · rw [if_pos he, if_pos (show shown items i = true from he), hfirst]
        exact ihc hc hfc (depth + 1) (y + 16)
      · rw [if_neg he, if_neg (show ¬ shown items i = true from he)]
        exact ⟨[], by simp, rfl⟩
    obtain ⟨below, hbelow, hbplace⟩ := hbelow
    rw [visible]
    generalize (if shown items i then c.visible (shown items) else []) = l at *
    obtain ⟨rest, hrest, hrplace⟩ := ihs hrest hfs depth (y + 16 + 16 * l.length)
    have hhere : (if OnScreen (y - win.scrollPos) then
        [drawnRow win (.slot i) (items i) depth y] else []).map place =
          if OnScreen (y - win.scrollPos) then [(.slot i, y - win.scrollPos)] else [] := by
      by_cases hon : OnScreen (y - win.scrollPos)
      · simp only [if_pos hon, map_cons, map_nil, place, drawnRow]
      · simp only [if_neg hon, map_nil]
    have hdraw : u32TreeDrawItems items win (n + 1) (.slot i) depth y =
        some ((if OnScreen (y - win.scrollPos) then
          [drawnRow win (.slot i) (items i) depth y] else []) ++ (below ++ rest),
          y + 16 + 16 * l.length + 16 * (s.visible (shown items)).length) := by
      have hi : u32TreeItem items (.slot i) = some i := hi
      rw [u32TreeDrawItems, hi]
      simp only [hbelow, bind_some, hnext, hrest, map_some]
      rfl
    have hlen : y + 16 + 16 * (l.length : Int) + 16 * ((s.visible (shown items)).length : Int) =
        y + 16 * ((i :: (l ++ s.visible (shown items))).length : Nat) := by
      rw [length_cons, length_append]
      omega
    rw [hlen] at hdraw
    refine ⟨_, hdraw, ?_⟩
    simp only [rowsFrom, rowsFrom_append, map_append, hbplace, hrplace, hhere]

theorem Forest.rows (h : Forest s trees) (w : Nat) :
    ∃ rows, treeRows s w = some rows ∧
      rows.map place = rowsFrom (s.windows w).scrollPos 0 ((trees w).visible (shown s.items)) := by
  obtain ⟨rows, heq, hplace⟩ := drawItems_forest h.named (s.windows w) (h.stored w)
    (Nat.lt_succ_of_le (slots_length_le (h.nodup w))) 0 0
  refine ⟨rows, ?_, hplace⟩
  rw [treeRows, h.root, heq]
  rfl

/-- The item at a height among rows of which only item and height are known. -/
def placedAt (ps : List (HTreeItem × Int)) (y : Int) : HTreeItem :=
  ((ps.find? fun q => q.2 ≤ y ∧ y < q.2 + 16).map Prod.fst).getD .null

theorem itemDrawnAt_eq (rows : List DrawnRow) (y : Int) :
    itemDrawnAt rows y = placedAt (rows.map place) y := by
  rw [placedAt, find?_map, itemDrawnAt]
  split
  all_goals
    rename_i h
    exact (congrArg (fun o : Option DrawnRow => ((o.map place).map Prod.fst).getD .null) h).symm

theorem placedAt_cons {scroll current y : Int} {i : Slot} {l : List Slot}
    (hy : current ≤ y + scroll) :
    placedAt (rowsFrom scroll current (i :: l)) y =
      if OnScreen (current - scroll) ∧ y + scroll < current + 16 then .slot i
      else placedAt (rowsFrom scroll (current + 16) l) y := by
  by_cases hon : OnScreen (current - scroll)
  · by_cases hrow : y + scroll < current + 16
    · simp only [rowsFrom, if_pos hon, placedAt, cons_append]
      rw [find?_cons_of_pos (by rw [decide_eq_true_iff]; omega), if_pos ⟨hon, hrow⟩]
      simp only [map_some, getD_some]
    · simp only [rowsFrom, if_pos hon, placedAt, cons_append, nil_append]
      rw [find?_cons_of_neg (by rw [decide_eq_true_iff]; omega),
        if_neg fun hboth => hrow hboth.2]
  · simp only [rowsFrom, if_neg hon, nil_append, if_neg fun hboth : _ ∧ _ => hon hboth.1]

theorem placedAt_above {scroll current y : Int} (l : List Slot) (hy : y + scroll < current) :
    placedAt (rowsFrom scroll current l) y = .null := by
  induction l generalizing current with
  | nil => rfl
  | cons i l ih =>
    have hrest := @ih (current + 16) (by omega)
    by_cases hon : OnScreen (current - scroll)
    · simp only [rowsFrom, if_pos hon, placedAt, cons_append, nil_append]
      rw [find?_cons_of_neg (by rw [decide_eq_true_iff]; omega)]
      exact hrest
    · simp only [rowsFrom, if_neg hon, nil_append]
      exact hrest

theorem placedAt_rowsFrom (scroll y : Int) (l : List Slot) {current : Int}
    (hy : current ≤ y + scroll) :
    placedAt (rowsFrom scroll current l) y =
      if OnScreen (current + 16 * ((y + scroll - current) / 16) - scroll) then
        rowItem l current (y + scroll)
      else .null := by
  induction l generalizing current with
  | nil =>
    have hnil : rowItem [] current (y + scroll) = .null := rfl
    rw [hnil, ite_self]
    rfl
  | cons i l ih =>
    rw [placedAt_cons hy, rowItem_cons hy]
    by_cases hrow : y + scroll < current + 16
    · have hzero : (y + scroll - current) / 16 = 0 := by omega
      simp only [hrow, and_true, if_true, hzero, Int.mul_zero, Int.add_zero]
      by_cases hon : OnScreen (current - scroll)
      · simp only [if_pos hon]
      · simp only [if_neg hon]
        exact placedAt_above l hrow
    · have hstep : current + 16 * ((y + scroll - current) / 16) =
          current + 16 + 16 * ((y + scroll - (current + 16)) / 16) := by omega
      simp only [hrow, and_false, if_false, hstep]
      exact ih (by omega)

/-! ## Hit-testing and drawing -/

/-- Where the row is that of a visible item: the item is drawn exactly if nothing visible above it is
expanded without children. -/
def RowKept (items : TreeItems) (scroll : Int) (vis : List Slot) (y : Int) : Prop :=
  ∀ (k : Nat) i, vis[k]? = some i → 16 * (k : Int) ≤ y + scroll → y + scroll < 16 * k + 16 →
    (OnScreen (16 * k - scroll) ↔ ∀ j ∈ vis.take k, bare (items j) = false)

def HitIsDrawn (s : TreeState) (w : Nat) (y : Int) : Prop :=
  ∃ rows, treeRows s w = some rows ∧ u32TreeHit s w y = some (itemDrawnAt rows y)

theorem rowItem_passed (items : TreeItems) (b : Sibs Slot) (row : Int) :
    rowItem (passed items b) 0 row =
      if ∀ j ∈ (b.visible (shown items)).take (row / 16).toNat, bare (items j) = false then
        rowItem (b.visible (shown items)) 0 row else .null := by
  rw [rowItem, rowItem, passed, thenUnless_getElem?, Int.sub_zero]
  split_ifs <;> rfl

theorem Forest.hit_iff (h : Forest s trees) (w : Nat) (y : Int) :
    HitIsDrawn s w y ↔
      RowKept s.items (s.windows w).scrollPos ((trees w).visible (shown s.items)) y := by
  obtain ⟨rows, hrows, hplace⟩ := h.rows w
  have hiff : HitIsDrawn s w y ↔ u32TreeHit s w y = some (itemDrawnAt rows y) := by
    constructor
    · rintro ⟨rows', hrows', hhit⟩
      rwa [some.inj (hrows.symm.trans hrows')]
    · exact fun hhit => ⟨rows, hrows, hhit⟩
  rw [hiff, itemDrawnAt_eq, hplace, h.hit, some.injEq]
  generalize (s.windows w).scrollPos = scroll
  by_cases hneg : y + scroll < 0
  · rw [if_pos hneg, placedAt_above _ hneg]
    refine iff_of_true rfl ?_
    intro k i _ hk _
    omega
  · rw [if_neg hneg, placedAt_rowsFrom scroll y _ (by omega), rowItem_passed]
    generalize (trees w).visible (shown s.items) = vis
    -- `k` is the number of the row
    obtain ⟨k, hk⟩ : ∃ k : Nat, (y + scroll) / 16 = k := ⟨((y + scroll) / 16).toNat, by omega⟩
    have honly : RowKept s.items scroll vis y ↔ ∀ i, vis[k]? = some i →
        (OnScreen (16 * k - scroll) ↔ ∀ j ∈ vis.take k, bare (s.items j) = false) := by
      constructor
      · exact fun hrow i hi => hrow k i hi (by omega) (by omega)
      · intro hrow k' i hi hlo hhi
        obtain rfl : k' = k := by omega
        exact hrow i hi
    have hitem : rowItem vis 0 (y + scroll) = (vis[k]?).elim .null .slot := by
      rw [rowItem, Int.sub_zero, hk, Int.toNat_natCast]
    rw [honly, hitem, Int.sub_zero, Int.zero_add, hk, Int.toNat_natCast]
    rcases vis[k]? with _ | i
    · simp
    · by_cases hbare : ∀ j ∈ vis.take k, bare (s.items j) = false <;>
        by_cases hon : OnScreen (16 * (k : Int) - scroll) <;> simp [hbare, hon]

/-- The messages of a run keep the forests, and in the state they lead to hit-testing returns what is
drawn, exactly if each message is careful and the row is kept. -/
theorem tree_view_agrees (scroll : Nat → Int) (ms : List TreeMessage) (w : Nat) (y : Int) :
    ((∀ pre post, ms = pre ++ post → InForests (treeRun scroll pre)) ∧
        ∀ s, treeRun scroll ms = some s → HitIsDrawn s w y) ↔
      (∀ pre m post, ms = pre ++ m :: post → ∀ s, treeRun scroll pre = some s → Careful s m) ∧
        ∀ s trees, treeRun scroll ms = some s → Forest s trees →
          RowKept s.items (s.windows w).scrollPos ((trees w).visible (shown s.items)) y := by
  rw [run_inForests_iff]
  refine and_congr_right fun hcareful => ?_
  constructor
  · exact fun hhit s trees hs h => (h.hit_iff w y).mp (hhit s hs)
  · intro hrow s hs
    obtain ⟨t, trees, ht, h⟩ := (run_inForests_iff scroll ms).mpr hcareful ms [] (by simp)
    obtain rfl := some.inj (hs.symm.trans ht)
    exact (h.hit_iff w y).mpr (hrow s trees hs h)

/-- Of two items at the top the second is deleted, or the first is expanded without children. -/
theorem tree_view_goes_wrong :
    ¬ InForests (treeRun (fun _ => 0) [.insert 0 .tviRoot .tviLast 0 0,
        .insert 0 .tviRoot .tviLast 0 0, .delete 0 (.slot 1)]) ∧
      ¬ ∀ s, treeRun (fun _ => 0) [.insert 0 .tviRoot .tviLast 0 0,
        .insert 0 .tviRoot .tviLast 0 0, .expand 0 tveExpand (.slot 0)] = some s →
          HitIsDrawn s 0 16 := by
  constructor
  · rintro ⟨s, trees, hs, h⟩
    have hlinks : (treeRun (fun _ => 0) [.insert 0 .tviRoot .tviLast 0 0,
        .insert 0 .tviRoot .tviLast 0 0, .delete 0 (.slot 1)]).map (fun s =>
          ((s.items 0).used, (s.items 0).nextSibling, (s.items 1).used)) =
        some (true, .slot 1, false) := by decide +kernel
    rw [hs, map_some, some.injEq, Prod.mk.injEq, Prod.mk.injEq] at hlinks
    obtain ⟨hused, hnext, hfree⟩ := hlinks
    obtain ⟨w, hw⟩ := h.covers 0 hused
    have hone : (s.items 1).used = true := (h.stored w).used ((h.stored w).next_mem hw hnext)
    rw [hfree] at hone
    cases hone
  · intro hall
    have hrows : (treeRun (fun _ => 0) [.insert 0 .tviRoot .tviLast 0 0,
        .insert 0 .tviRoot .tviLast 0 0, .expand 0 tveExpand (.slot 0)]).map (fun s =>
          (u32TreeHit s 0 16, (treeRows s 0).map fun rows => itemDrawnAt rows 16)) =
        some (some .null, some (.slot 1)) := by decide +kernel
    obtain ⟨s, hs, heq⟩ := map_eq_some_iff.mp hrows
    obtain ⟨rows, hr, hhit⟩ := hall s hs
    rw [Prod.mk.injEq, hhit, hr, map_some] at heq
    cases (some.inj heq.1).symm.trans (some.inj heq.2)

end Rows

end DiscouNT.User32
