import DiscouNT.Lib.Slots

/-!
# User32.Tree

The tree view of `dlls/user32/user32.c`: the table `g_tree_items`, which all tree views share, the
messages `TVM_INSERTITEMW`, `TVM_DELETEITEM` and `TVM_EXPAND`, and the two walks over the visible
items, `u32_tree_hit` and `u32_tree_draw_items`.

* The handle of an item is the address of its slot, so the value of a handle is one of these
  addresses, one of the special values of `commctrl.h`, or something else.
* A loop or a recursion over links is given fuel; `none` is a call that runs out of it. With no
  cycle in the links it never does.
-/

namespace DiscouNT.User32

open Lib Function

abbrev maxU32TreeItems : Nat := 512

abbrev Slot := Fin maxU32TreeItems

inductive HTreeItem where
  | null
  | tviRoot
  | tviFirst
  | tviLast
  | slot (i : Slot)
  | other (value : Nat)
  deriving DecidableEq

def tvisExpanded : UInt32 := 0x20
def tvisExpandedOnce : UInt32 := 0x40
def tveCollapse : Nat := 1
def tveExpand : Nat := 2

structure U32TreeItem where
  used : Bool := false
  handle : HTreeItem := .null
  parent : HTreeItem := .null
  firstChild : HTreeItem := .null
  nextSibling : HTreeItem := .null
  state : UInt32 := 0

abbrev TreeItems := Slot → U32TreeItem

structure TreeWindow where
  treeRoot : HTreeItem := .null
  treeSelection : HTreeItem := .null
  scrollPos : Int := 0

structure TreeState where
  items : TreeItems
  windows : Nat → TreeWindow

def expanded (it : U32TreeItem) : Bool := it.state &&& tvisExpanded != 0

def u32TreeItem (items : TreeItems) (handle : HTreeItem) : Option Slot :=
  if handle = .null then none else findKey U32TreeItem.used U32TreeItem.handle items handle

def u32TreeAlloc (items : TreeItems) : Option Slot := firstSlot fun i => !(items i).used

def setFirstChild (items : TreeItems) (i : Slot) (h : HTreeItem) : TreeItems :=
  update items i { items i with firstChild := h }

def setNextSibling (items : TreeItems) (i : Slot) (h : HTreeItem) : TreeItems :=
  update items i { items i with nextSibling := h }

def walkSiblings (items : TreeItems) (go : U32TreeItem → Bool) :
    Nat → Option Slot → Option (Option Slot)
  | 0, _ => none
  | _ + 1, none => some none
  | n + 1, some cur =>
    if go (items cur) then walkSiblings items go n (u32TreeItem items (items cur).nextSibling)
    else some (some cur)

def u32TreeUnlink (items : TreeItems) (i : Slot) : Option TreeItems :=
  match u32TreeItem items (items i).parent with
  | none => some items
  | some parent =>
    if (items parent).firstChild = (items i).handle then
      some (setFirstChild items parent (items i).nextSibling)
    else
      (walkSiblings items (fun it => it.nextSibling != (items i).handle) (maxU32TreeItems + 1)
        (u32TreeItem items (items parent).firstChild)).map fun cur =>
          match cur with
          | none => items
          | some cur => setNextSibling items cur (items i).nextSibling

mutual

def u32TreeFree : Nat → HTreeItem → TreeItems → Option TreeItems
  | 0, _, _ => none
  | n + 1, handle, items =>
    match u32TreeItem items handle with
    | none => some items
    | some i => (freeChildren n (items i).firstChild items).map fun items =>
        update items i {}

def freeChildren : Nat → HTreeItem → TreeItems → Option TreeItems
  | 0, _, _ => none
  | n + 1, child, items =>
    if child = .null then some items
    else
      let next := match u32TreeItem items child with
        | none => .null
        | some node => (items node).nextSibling
      (u32TreeFree n child items).bind fun items => freeChildren n next items

end

def freeFuel : Nat := 2 * maxU32TreeItems + 2

def getHead (s : TreeState) (w : Nat) : Option Slot → HTreeItem
  | none => (s.windows w).treeRoot
  | some parent => (s.items parent).firstChild

def setHead (s : TreeState) (w : Nat) (h : HTreeItem) : Option Slot → TreeState
  | none => { s with windows := update s.windows w { s.windows w with treeRoot := h } }
  | some parent => { s with items := setFirstChild s.items parent h }

/-- The new item becomes the first or the last of the list that `*head` begins. -/
def linkItem (s : TreeState) (w : Nat) (node : Slot) (parent : Option Slot)
    (hInsertAfter : HTreeItem) : Option TreeState :=
  let head := getHead s w parent
  if hInsertAfter = .tviFirst ∨ head = .null then
    let s := { s with items := setNextSibling s.items node head }
    some (setHead s w (.slot node) parent)
  else
    (walkSiblings s.items (fun it => it.nextSibling != .null) (maxU32TreeItems + 1)
      (u32TreeItem s.items head)).map fun cur =>
        match cur with
        | none => setHead s w (.slot node) parent
        | some cur => { s with items := setNextSibling s.items cur (.slot node) }

/-- `parent`, which is null for an item at the top. -/
def insertParent (items : TreeItems) (hParent : HTreeItem) : Option Slot :=
  if hParent = .tviRoot ∨ hParent = .tviFirst then none else u32TreeItem items hParent

def parentHandle (items : TreeItems) : Option Slot → HTreeItem
  | none => .null
  | some parent => (items parent).handle

/-- `TVM_INSERTITEMW`; what it returns is the handle of the new item. The slot is taken before the
parent is looked up. -/
def tvmInsertItem (s : TreeState) (w : Nat) (hParent hInsertAfter : HTreeItem)
    (state stateMask : UInt32) : Option (HTreeItem × TreeState) :=
  match u32TreeAlloc s.items with
  | none => some (.null, s)
  | some node =>
    let items := update s.items node
      { used := true, handle := .slot node, state := state &&& stateMask }
    let parent := insertParent items hParent
    let items := update items node { items node with parent := parentHandle items parent }
    (linkItem { s with items := items } w node parent hInsertAfter).map fun s => (.slot node, s)

def deleteTarget (s : TreeState) (w : Nat) (lParam : HTreeItem) : HTreeItem :=
  if lParam = .tviRoot then (s.windows w).treeRoot else lParam

def tvmDeleteItem (s : TreeState) (w : Nat) (lParam : HTreeItem) : Option (Bool × TreeState) :=
  let handle := deleteTarget s w lParam
  match u32TreeItem s.items handle with
  | none => some (false, s)
  | some node =>
    (u32TreeUnlink s.items node).bind fun items =>
      let win := s.windows w
      let win := if win.treeSelection = handle then { win with treeSelection := .null } else win
      let win := if win.treeRoot = handle then { win with treeRoot := (items node).nextSibling } else win
      (u32TreeFree freeFuel handle items).map fun items =>
        (true, { items := items, windows := update s.windows w win })

def tvmExpand (s : TreeState) (wParam : Nat) (lParam : HTreeItem) : Bool × TreeState :=
  match u32TreeItem s.items lParam with
  | none => (false, s)
  | some node =>
    let it := s.items node
    let it := if wParam = tveExpand then { it with state := it.state ||| (tvisExpanded ||| tvisExpandedOnce) }
      else if wParam = tveCollapse then { it with state := it.state &&& ~~~ tvisExpanded }
      else it
    (true, { s with items := update s.items node it })

inductive TreeMessage where
  | insert (w : Nat) (hParent hInsertAfter : HTreeItem) (state stateMask : UInt32)
  | delete (w : Nat) (lParam : HTreeItem)
  | expand (w : Nat) (wParam : Nat) (lParam : HTreeItem)

def treeStep (s : TreeState) : TreeMessage → Option TreeState
  | .insert w hParent hInsertAfter state stateMask =>
    (tvmInsertItem s w hParent hInsertAfter state stateMask).map Prod.snd
  | .delete w lParam => (tvmDeleteItem s w lParam).map Prod.snd
  | .expand _ wParam lParam => some (tvmExpand s wParam lParam).2

def emptyTrees (scroll : Nat → Int) : TreeState :=
  { items := fun _ => {}, windows := fun w => { scrollPos := scroll w } }

def treeRun (scroll : Nat → Int) (ms : List TreeMessage) : Option TreeState :=
  ms.foldl (fun s m => s.bind fun s => treeStep s m) (some (emptyTrees scroll))

def climb (items : TreeItems) : Nat → Option Slot → Option HTreeItem
  | 0, _ => none
  | _ + 1, none => some .null
  | n + 1, some item =>
    if (items item).nextSibling ≠ .null then some (items item).nextSibling
    else climb items n (u32TreeItem items (items item).parent)

def u32TreeNextVisible (items : TreeItems) (item : Slot) : Option HTreeItem :=
  if expanded (items item) then some (items item).firstChild
  else climb items (maxU32TreeItems + 1) (some item)

def hitFrom (items : TreeItems) (row : Int) : Nat → HTreeItem → Int → Option HTreeItem
  | 0, _, _ => none
  | n + 1, item, current =>
    match u32TreeItem items item with
    | none => some .null
    | some node =>
      if current ≤ row ∧ row < current + 16 then some item
      else (u32TreeNextVisible items node).bind fun next => hitFrom items row n next (current + 16)

def u32TreeHit (s : TreeState) (w : Nat) (y : Int) : Option HTreeItem :=
  let row := y + (s.windows w).scrollPos
  if row < 0 then some .null
  else hitFrom s.items row (maxU32TreeItems + 1) (s.windows w).treeRoot 0

/-- What is drawn for an item: its text at `x + 12`, `y + 2`, in front of it the marker. -/
structure DrawnRow where
  item : HTreeItem
  x : Int
  drawY : Int
  marker : Option Char
  selected : Bool

def drawnRow (win : TreeWindow) (item : HTreeItem) (it : U32TreeItem) (depth : Nat) (y : Int) :
    DrawnRow where
  item := item
  x := 4 + depth * 16
  drawY := y - win.scrollPos
  marker := if it.firstChild = .null then none else some (if expanded it then '-' else '+')
  selected := item = win.treeSelection

def u32TreeDrawItems (items : TreeItems) (win : TreeWindow) :
    Nat → HTreeItem → Nat → Int → Option (List DrawnRow × Int)
  | 0, _, _, _ => none
  | n + 1, item, depth, y =>
    match u32TreeItem items item with
    | none => some ([], y)
    | some node =>
      let drawY := y - win.scrollPos
      let here := if -16 ≤ drawY ∧ drawY < 4096 then [drawnRow win item (items node) depth y] else []
      (if expanded (items node) then
          u32TreeDrawItems items win n (items node).firstChild (depth + 1) (y + 16)
        else some ([], y + 16)).bind fun below =>
          (u32TreeDrawItems items win n (items node).nextSibling depth below.2).map fun rest =>
            (here ++ (below.1 ++ rest.1), rest.2)

def treeRows (s : TreeState) (w : Nat) : Option (List DrawnRow) :=
  (u32TreeDrawItems s.items (s.windows w) (maxU32TreeItems + 1) (s.windows w).treeRoot 0 0).map
    Prod.fst

def itemDrawnAt (rows : List DrawnRow) (y : Int) : HTreeItem :=
  match rows.find? fun r => r.drawY ≤ y ∧ y < r.drawY + 16 with
  | none => .null
  | some r => r.item

end DiscouNT.User32
