import Mathlib
import DiscouNT.Lib.Move

/-!
# User32.Edit

The edit control of `dlls/user32/user32.c`: a window with the control type `U32_CTRL_EDIT`, the
buffer `edit_text` and what `WM_SETTEXT`, `WM_CHAR`, `EM_REPLACESEL`, `EM_SETSEL` and
`EM_LIMITTEXT` do to it.

* An `int` is an integer; the two sums that can leave 32 bits while the text fits in memory
  (`edit_capacity * 2` and `edit_limit + 1`) wrap.
* A buffer is an array with no end. `stores` lists the stores into buffers, each with the
  capacity of its buffer; the code has no such field, and none that counts the allocations that
  failed (`failures`) or the buffers that nobody can free any more (`lost`).
* Whether `kmalloc` finds memory is an argument, for each call a message can make.
* Strings end at their first 0. Painting is left out.
-/

namespace DiscouNT.User32

open Lib Function

abbrev WChar := UInt16

def i32 (n : Int) : Int := (n + 2 ^ 31) % 2 ^ 32 - 2 ^ 31

structure Edit where
  title : Int → WChar := fun _ => 0
  editLimit : Int := 0
  editCapacity : Int := 0
  editLen : Int := 0
  editSelStart : Int := 0
  editSelEnd : Int := 0
  editModified : Bool := false
  editText : Option (Int → WChar) := none
  stores : List (Int × Int) := []
  failures : Nat := 0
  lost : Nat := 0

def chars (s : List WChar) : List WChar := s.takeWhile fun c => c != 0

def u32WStrLen (s : List WChar) : Int := (chars s).length

def charAt (s : List WChar) (i : Int) : WChar := s.getD i.toNat 0

def storesAt (d : Int) (n : Nat) (capacity : Int) : List (Int × Int) :=
  (List.range n).map fun i : Nat => (d + i, capacity)

def allocChars (minChars : Int) (w : Edit) : Int :=
  let alloc := if 0 < w.editCapacity then i32 (w.editCapacity * 2) else 64
  let alloc := if alloc < minChars then minChars else alloc
  if i32 (w.editLimit + 1) < alloc then i32 (w.editLimit + 1) else alloc

/-- The new buffer takes the place of the old one, which is freed if there is text in it. -/
def replaceBuffer (alloc : Int) (w : Edit) : Edit :=
  match w.editText with
  | none => { w with editText := some fun _ => 0, editCapacity := alloc }
  | some text =>
    if 0 < w.editLen then
      { w with
        editText := some (copyIn (fun _ => 0) 0 text w.editLen.toNat)
        editCapacity := alloc
        stores := storesAt 0 w.editLen.toNat alloc ++ w.stores }
    else { w with editText := some fun _ => 0, editCapacity := alloc, lost := w.lost + 1 }

def u32EnsureEditBuffer (minChars : Int) (ok : Bool) (w : Edit) : Edit :=
  let w := if w.editLimit ≤ 0 then { w with editLimit := 65535 } else w
  let minChars := if minChars < 64 then 64 else minChars
  if w.editText.isSome ∧ minChars ≤ w.editCapacity then w
  else if allocChars minChars w ≤ 0 then w
  else if ok = false then { w with failures := w.failures + 1 }
  else replaceBuffer (allocChars minChars w) w

def u32EditSyncTitle (w : Edit) : Edit :=
  match w.editText with
  | none => w
  | some text =>
    let copyLen := if 127 < w.editLen then 127 else w.editLen
    { w with title := update (copyIn w.title 0 text copyLen.toNat) copyLen 0 }

def u32EditSetText (text : List WChar) (ok : Bool) (w : Edit) : Edit :=
  let len := u32WStrLen text
  let len := if 0 < w.editLimit ∧ w.editLimit < len then w.editLimit else len
  let w := u32EnsureEditBuffer (len + 1) ok w
  match w.editText with
  | none => w
  | some buf =>
    u32EditSyncTitle { w with
      editText := some (update (copyIn buf 0 (charAt text) len.toNat) len 0)
      stores := (len, w.editCapacity) :: (storesAt 0 len.toNat w.editCapacity ++ w.stores)
      editLen := len
      editSelStart := len
      editSelEnd := len
      editModified := false }

/-- `repl_len`, cut so that the new text is within the limit. -/
def replLenWithin (limit start tailLen replLen : Int) : Int :=
  let newLen := start + replLen + tailLen
  if 0 < limit ∧ limit < newLen then
    let replLen := replLen - (newLen - limit)
    if replLen < 0 then 0 else replLen
  else replLen

/-- The tail goes to its new place, one way or the other, with the character behind it. -/
def moveTail (start replLen stop tailLen : Int) (text : Int → WChar) : Int → WChar :=
  if 0 < tailLen ∧ start + replLen ≠ stop then
    if start + replLen < stop then moveForward text (start + replLen) stop (tailLen + 1).toNat
    else moveBackward text (start + replLen) stop (tailLen + 1).toNat
  else update text (start + replLen + tailLen) 0

def tailStores (start replLen stop tailLen capacity : Int) : List (Int × Int) :=
  if 0 < tailLen ∧ start + replLen ≠ stop then
    storesAt (start + replLen) (tailLen + 1).toNat capacity
  else [(start + replLen + tailLen, capacity)]

/-- What `u32_edit_replace_sel` does when the buffer is there. -/
def splice (repl : List WChar) (start replLen stop : Int) (text : Int → WChar) (w : Edit) : Edit :=
  let tailLen := w.editLen - stop
  let newLen := start + replLen + tailLen
  let text := moveTail start replLen stop tailLen text
  let text := copyIn text start (charAt repl) replLen.toNat
  u32EditSyncTitle { w with
    editText := some (update text newLen 0)
    stores := (newLen, w.editCapacity) :: (storesAt start replLen.toNat w.editCapacity ++
      (tailStores start replLen stop tailLen w.editCapacity ++ w.stores))
    editLen := newLen
    editSelStart := start + replLen
    editSelEnd := start + replLen
    editModified := true }

def u32EditReplaceSel (repl : List WChar) (ok₁ ok₂ : Bool) (w : Edit) : Edit :=
  let w := u32EnsureEditBuffer 64 ok₁ w
  if w.editText.isNone then w
  else
    let start := if w.editSelStart < 0 then 0 else w.editSelStart
    let stop := if w.editSelEnd < start then start else w.editSelEnd
    let stop := if w.editLen < stop then w.editLen else stop
    let replLen := replLenWithin w.editLimit start (w.editLen - stop) (u32WStrLen repl)
    let newLen := start + replLen + (w.editLen - stop)
    let w := u32EnsureEditBuffer (newLen + 1) ok₂ w
    match w.editText with
    | none => w
    | some text => splice repl start replLen stop text w

inductive EditMessage where
  | setText (text : Option (List WChar))
  | char (ch : WChar)
  | replaceSel (repl : Option (List WChar))
  | setSel (start stop : Int)
  | limitText (limit : Int)
deriving DecidableEq, Repr

def backspace (w : Edit) : Edit :=
  if w.editSelStart = w.editSelEnd ∧ 0 < w.editSelStart then
    { w with editSelStart := w.editSelStart - 1 }
  else w

def setSel (start stop : Int) (w : Edit) : Edit :=
  let start := if i32 start < 0 then 0 else i32 start
  let stop := if i32 stop < 0 ∨ w.editLen < i32 stop then w.editLen else i32 stop
  let start := if w.editLen < start then w.editLen else start
  let stop := if stop < start then start else stop
  { w with editSelStart := start, editSelEnd := stop }

/-- `SendMessageW` to an edit control, with the answers of `kmalloc` to the first and the second
call of `u32_ensure_edit_buffer`. -/
def sendMessage (m : EditMessage) (ok₁ ok₂ : Bool) (w : Edit) : Edit :=
  match m with
  | .setText text => u32EditSetText (text.getD []) ok₁ w
  | .char ch =>
    if ch = 8 then u32EditReplaceSel [] ok₁ ok₂ (backspace w)
    else u32EditReplaceSel [ch] ok₁ ok₂ w
  | .replaceSel repl => u32EditReplaceSel (repl.getD []) ok₁ ok₂ w
  | .setSel start stop => setSel start stop w
  | .limitText limit => { w with editLimit := if limit ≠ 0 then i32 limit else 65535 }

def sendAll (messages : List (EditMessage × Bool × Bool)) : Edit :=
  messages.foldl (fun w m => sendMessage m.1 m.2.1 m.2.2 w) {}

end DiscouNT.User32
