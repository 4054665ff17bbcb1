import Mathlib

/-!
# Ke.Invoke

`KeInvokeMainArgs` and `KeInvokeWMain` of `kernel/core/invoke.c`, up to the call of the entry point.
The buffer is split at the index `i`: what lies before it may have been rewritten, what follows is
the text that is left, with a NUL behind it.
-/

namespace DiscouNT.Ke

open List

structure ArgBuffer (α : Type) where
  before : List α
  after : List α

/-- What an element of `argv` points to; an argument is named by its index in the buffer. -/
inductive ArgPointer where
  | image
  | arg (i : Nat)
  | null
deriving DecidableEq, Repr

structure Invocation (α : Type) where
  argc : Nat
  argv : List ArgPointer
  buffer : List α

section Buffer

variable {α : Type} [Zero α]

def ArgBuffer.memory (b : ArgBuffer α) : List α := b.before ++ b.after ++ [0]

/-- `while (p(buffer[i])) i++`, for a `p` that fails for the NUL. -/
def ArgBuffer.advance (p : α → Bool) (b : ArgBuffer α) : ArgBuffer α :=
  ⟨b.before ++ b.after.takeWhile p, b.after.dropWhile p⟩

def ArgBuffer.next (b : ArgBuffer α) : ArgBuffer α := ⟨b.before ++ b.after.take 1, b.after.tail⟩

def ArgBuffer.cut (b : ArgBuffer α) : ArgBuffer α :=
  if b.after = [] then b else ⟨b.before ++ [0], b.after.tail⟩

variable [DecidableEq α]

/-- The characters of a command line that are copied. -/
def copied (commandLine : Option (List α)) : List α :=
  ((commandLine.getD []).takeWhile (· ≠ 0)).take 255

def invocation (r : List ArgPointer × ArgBuffer α) : Invocation α :=
  ⟨r.1.length, r.1 ++ [.null], r.2.memory⟩

def isBlank [OfNat α 32] [OfNat α 9] (c : α) : Bool := c = 32 ∨ c = 9

def isQuote [OfNat α 34] [OfNat α 39] (c : α) : Bool := c = 34 ∨ c = 39

/-- The loop of `KeInvokeWMain`, with `31 - argc`. -/
def wmainLoop (blank quote : α → Bool) :
    Nat → List ArgPointer → ArgBuffer α → List ArgPointer × ArgBuffer α
  | 0, argv, b => (argv, b)
  | left + 1, argv, b =>
    let b := b.advance blank
    match b.after with
    | [] => (argv, b)
    | c :: _ =>
      if quote c then
        let b := b.next
        wmainLoop blank quote left (argv ++ [.arg b.before.length]) (b.advance (· ≠ c)).cut
      else
        wmainLoop blank quote left (argv ++ [.arg b.before.length]) (b.advance (!blank ·)).cut

end Buffer

def mainLoop : Nat → List ArgPointer → ArgBuffer UInt8 → List ArgPointer × ArgBuffer UInt8
  | 0, argv, b => (argv, b)
  | left + 1, argv, b =>
    let b := b.advance fun c => c = 32 ∨ c = 9
    match b.after with
    | [] => (argv, b)
    | c :: _ =>
      let quote := if c = 34 ∨ c = 39 then c else 0
      let b := if c = 34 ∨ c = 39 then b.next else b
      mainLoop left (argv ++ [.arg b.before.length])
        (b.advance fun c => (quote ≠ 0 ∧ c ≠ quote) ∨ (quote = 0 ∧ c ≠ 32 ∧ c ≠ 9)).cut

def keInvokeMainArgs (commandLine : Option (List UInt8)) : Invocation UInt8 :=
  invocation (mainLoop 30 [.image] ⟨[], copied commandLine⟩)

def keInvokeWMain (commandLine : Option (List UInt16)) : Invocation UInt16 :=
  invocation (wmainLoop isBlank isQuote 30 [.image] ⟨[], copied commandLine⟩)

/-! ## Splitting a text -/

section Split

variable {α : Type} [DecidableEq α] {blank quote : α → Bool} {left : Nat} {text : List α}

/-- Up to `left` arguments: what a quote opens goes on to the same quote, any other to a blank. -/
def split (blank quote : α → Bool) : Nat → List α → List (List α)
  | 0, _ => []
  | left + 1, text =>
    match text.dropWhile blank with
    | [] => []
    | c :: rest =>
      if quote c then
        rest.takeWhile (· ≠ c) :: split blank quote left (rest.dropWhile (· ≠ c)).tail
      else
        (c :: rest).takeWhile (!blank ·) ::
          split blank quote left ((c :: rest).dropWhile (!blank ·)).tail

variable [Zero α]

def stringAt (memory : List α) (i : Nat) : List α := (memory.drop i).takeWhile (· ≠ 0)

def Invocation.arguments (c : Invocation α) : List (List α) :=
  c.argv.filterMap fun
    | .arg i => some (stringAt c.buffer i)
    | _ => none

end Split

section Settled

variable {α : Type} [Zero α]

def ArgBuffer.settled (b : ArgBuffer α) : List α := if b.after = [] then b.before ++ [0] else b.before

theorem ArgBuffer.word_settled (b : ArgBuffer α) (p : α → Bool) :
    ∃ t, (b.advance p).cut.settled = b.before ++ b.after.takeWhile p ++ 0 :: t := by
  rw [cut]
  by_cases hend : (b.advance p).after = []
  · rw [if_pos hend, settled, if_pos hend]
    exact ⟨[], rfl⟩
  · rw [if_neg hend, settled]
    by_cases hlast : (b.advance p).after.tail = []
    · rw [if_pos hlast]
      exact ⟨[0], by simp [advance]⟩
    · rw [if_neg hlast]
      exact ⟨[], by simp [advance]⟩

theorem ArgBuffer.memory_advance (b : ArgBuffer α) (p : α → Bool) :
    (b.advance p).memory = b.memory := by
  rw [memory, memory, advance, append_assoc b.before, takeWhile_append_dropWhile]

theorem ArgBuffer.word_length (b : ArgBuffer α) (p : α → Bool) :
    (b.advance p).cut.memory.length = b.memory.length := by
  have hadvance := b.memory_advance p
  rw [cut]
  by_cases hend : (b.advance p).after = []
  · rw [if_pos hend, hadvance]
  · rw [if_neg hend, ← hadvance]
    obtain ⟨c, rest, hrest⟩ := List.exists_cons_of_ne_nil hend
    simp [memory, hrest]

theorem ArgBuffer.cut_after (b : ArgBuffer α) : b.cut.after = b.after.tail := by
  rw [cut]
  by_cases hend : b.after = []
  · rw [if_pos hend, hend]
    rfl
  · rw [if_neg hend]

end Settled

section Runs

variable {α : Type} [Zero α] [DecidableEq α] {blank quote : α → Bool} {argv : List ArgPointer}
  {words : List (List α)} {b b' : ArgBuffer α} {r : List ArgPointer × ArgBuffer α}

structure Arguments (b : ArgBuffer α) (argv : List ArgPointer) (words : List (List α))
    (r : List ArgPointer × ArgBuffer α) : Prop where
  argv : ∃ new : List Nat, r.1 = argv ++ new.map .arg ∧ new.map (stringAt r.2.memory) = words ∧
    ∀ i ∈ new, ∃ rest, r.2.memory.drop i = stringAt r.2.memory i ++ 0 :: rest
  settled : ∃ tail, r.2.memory = b.settled ++ tail
  length : r.2.memory.length = b.memory.length

theorem Arguments.done (argv : List ArgPointer) (h : b'.memory = b.memory) :
    Arguments b argv [] (argv, b') := by
  refine ⟨⟨[], by simp, rfl, nofun⟩, ?_, congrArg List.length h⟩
  rw [h, ArgBuffer.settled]
  by_cases hend : b.after = []
  · exact ⟨[], by simp [ArgBuffer.memory, hend]⟩
  · exact ⟨b.after ++ [0], by simp [ArgBuffer.memory, hend]⟩

theorem Arguments.word {p : α → Bool} (hzero : 0 ∉ b.after)
    (h : Arguments (b.advance p).cut (argv ++ [.arg b.before.length]) words r) :
    Arguments b argv (b.after.takeWhile p :: words) r := by
  obtain ⟨⟨new, hargv, hnew, hends⟩, ⟨tail, htail⟩, hlen⟩ := h
  obtain ⟨t, ht⟩ := b.word_settled p
  have hmemory : r.2.memory = b.before ++ (b.after.takeWhile p ++ 0 :: (t ++ tail)) := by
    rw [htail, ht]
    simp
  have hdrop : r.2.memory.drop b.before.length = b.after.takeWhile p ++ 0 :: (t ++ tail) := by
    rw [hmemory, drop_left]
  have hword : stringAt r.2.memory b.before.length = b.after.takeWhile p := by
    rw [stringAt, hdrop, takeWhile_append_of_pos, takeWhile_cons_of_neg (by simp), append_nil]
    intro c hc
    have hmem := List.takeWhile_subset p hc
    simp only [decide_eq_true_eq]
    rintro rfl
    exact hzero hmem
  refine ⟨⟨b.before.length :: new, by rw [hargv]; simp, by rw [map_cons, hword, hnew], ?_⟩, ?_,
    by rw [hlen, b.word_length]⟩
  · rw [forall_mem_cons, hword]
    exact ⟨⟨_, hdrop⟩, hends⟩
  · rw [ArgBuffer.settled]
    by_cases hend : b.after = []
    · rw [if_pos hend, hmemory, hend]
      exact ⟨t ++ tail, by simp⟩
    · rw [if_neg hend]
      exact ⟨_, hmemory⟩

theorem Arguments.skip (h : Arguments b' argv words r) (hne : b.after ≠ []) {x : List α}
    (hbefore : b'.before = b.before ++ x) (hlen : b'.memory.length = b.memory.length) :
    Arguments b argv words r := by
  refine ⟨h.argv, ?_, h.length.trans hlen⟩
  obtain ⟨tail, htail⟩ := h.settled
  rw [ArgBuffer.settled] at htail
  rw [ArgBuffer.settled, if_neg hne, htail]
  by_cases hend : b'.after = []
  · exact ⟨x ++ 0 :: tail, by simp [hend, hbefore]⟩
  · exact ⟨x ++ tail, by simp [hend, hbefore]⟩

theorem wmainLoop_arguments (blank quote : α → Bool) : ∀ (left : Nat) (argv : List ArgPointer)
    (b : ArgBuffer α), 0 ∉ b.after →
    Arguments b argv (split blank quote left b.after) (wmainLoop blank quote left argv b) := by
  intro left
  induction left with
  | zero => exact fun argv b _ => .done argv rfl
  | succ left ih =>
    intro argv b hzero
    rw [wmainLoop, split]
    have hsubset : ∀ x ∈ b.after.dropWhile blank, x ∈ b.after :=
      fun x hx => (dropWhile_suffix blank).subset hx
    have hword : ∀ (b' : ArgBuffer α) (p : α → Bool), 0 ∉ b'.after →
        Arguments b' argv (b'.after.takeWhile p :: split blank quote left (b'.after.dropWhile p).tail)
          (wmainLoop blank quote left (argv ++ [.arg b'.before.length]) (b'.advance p).cut) := by
      intro b' p hzero'
      have hrest := ih (argv ++ [.arg b'.before.length]) (b'.advance p).cut
      rw [ArgBuffer.cut_after] at hrest
      refine .word hzero' (hrest fun h => hzero' ?_)
      exact (dropWhile_suffix p).subset (mem_of_mem_tail h)
    simp only [ArgBuffer.advance] at hword ⊢
    cases htext : b.after.dropWhile blank with
    | nil =>
      refine .done argv ?_
      rw [← htext]
      exact b.memory_advance blank
    | cons c rest =>
      have hne : b.after ≠ [] := by
        intro hnil
        rw [hnil] at htext
        cases htext
      rw [htext] at hsubset
      have hmemory := congrArg List.length (b.memory_advance blank)
      rw [ArgBuffer.memory, ArgBuffer.advance, htext] at hmemory
      dsimp only
      by_cases hquote : quote c
      · rw [if_pos hquote, if_pos hquote]
        refine .skip (hword ⟨_, rest⟩ (· ≠ c) fun h => hzero (hsubset 0 (.tail c h))) hne
          (append_assoc ..) ?_
        rw [← hmemory]
        simp [ArgBuffer.memory]
      · rw [if_neg hquote, if_neg hquote]
        exact .skip (hword ⟨_, c :: rest⟩ (!blank ·) fun h => hzero (hsubset 0 h)) hne rfl hmemory

end Runs

/-! ## The texts that are split -/

section Text

variable {α β : Type} {blank quote : α → Bool}

theorem filter_word {plain p : α → Bool} (hp : ∀ c, p c = false → plain c = false) : ∀ l : List α,
    (l.takeWhile p).filter plain ++ (l.dropWhile p).tail.filter plain = l.filter plain
  | [] => rfl
  | c :: l => by
    by_cases hc : p c
    · rw [takeWhile_cons_of_pos hc, dropWhile_cons_of_pos hc, filter_cons, filter_cons]
      by_cases hplain : plain c
      · rw [if_pos hplain, if_pos hplain, cons_append, filter_word hp l]
      · rw [if_neg hplain, if_neg hplain, filter_word hp l]
    · rw [takeWhile_cons_of_neg hc, dropWhile_cons_of_neg hc, filter_cons,
        if_neg (by rw [hp c (by simpa using hc)]; decide)]
      rfl

variable [DecidableEq α] [DecidableEq β]

theorem split_length : ∀ (left : Nat) (text : List α), (split blank quote left text).length ≤ left
  | 0, _ => Nat.le_refl 0
  | left + 1, text => by
    rw [split]
    cases text.dropWhile blank with
    | nil => exact Nat.zero_le _
    | cons c rest =>
      dsimp only
      by_cases hquote : quote c
      · rw [if_pos hquote]
        exact Nat.succ_le_succ (split_length left _)
      · rw [if_neg hquote]
        exact Nat.succ_le_succ (split_length left _)

theorem split_keeps {plain : α → Bool} (hplain : ∀ c, plain c = (!blank c && !quote c)) :
    ∀ (left : Nat) (text : List α), (split blank quote left text).length < left →
      (split blank quote left text).flatten.filter plain = text.filter plain
  | 0, _, h => absurd h (Nat.not_lt_zero _)
  | left + 1, text, h => by
    have hskip : text.filter plain = (text.dropWhile blank).filter plain := by
      have hparts := congrArg (List.filter plain)
        (takeWhile_append_dropWhile (p := blank) (l := text))
      rw [← hparts, filter_append, filter_eq_nil_iff.mpr, nil_append]
      intro c hc
      rw [hplain, mem_takeWhile_imp hc]
      exact Bool.false_ne_true
    rw [split] at h ⊢
    rw [hskip]
    cases htext : text.dropWhile blank with
    | nil => rfl
    | cons c rest =>
      rw [htext] at h
      dsimp only at h ⊢
      by_cases hquote : quote c
      · rw [if_pos hquote] at h ⊢
        rw [List.flatten_cons, filter_append, split_keeps hplain left _ (Nat.lt_of_succ_lt_succ h),
          filter_word, filter_cons, if_neg (by rw [hplain, hquote]; simp)]
        intro d hd
        obtain rfl : d = c := by simpa using hd
        rw [hplain, hquote]
        simp
      · rw [if_neg hquote] at h ⊢
        rw [List.flatten_cons, filter_append, split_keeps hplain left _ (Nat.lt_of_succ_lt_succ h),
          filter_word]
        intro d hd
        rw [hplain, hd]
        rfl

theorem split_map {f : α → β} {blank' quote' : β → Bool} (hf : Function.Injective f)
    (hblank : blank' ∘ f = blank) (hquote : quote' ∘ f = quote) :
    ∀ (left : Nat) (text : List α),
      split blank' quote' left (text.map f) = (split blank quote left text).map (List.map f)
  | 0, _ => rfl
  | left + 1, text => by
    rw [split, split, dropWhile_map, hblank]
    cases text.dropWhile blank with
    | nil => rfl
    | cons c rest =>
      have hsame : (fun d => decide (d ≠ f c)) ∘ f = fun d => decide (d ≠ c) :=
        funext fun d => by simp [hf.eq_iff]
      have hword : (fun d => !blank' d) ∘ f = fun d => !blank d := by rw [← hblank]; rfl
      simp only [map_cons]
      rw [show quote' (f c) = quote c from congrFun hquote c]
      by_cases hq : quote c
      · rw [if_pos hq, if_pos hq, takeWhile_map, dropWhile_map, hsame, ← List.map_tail,
          split_map hf hblank hquote left, map_cons]
      · rw [if_neg hq, if_neg hq, ← map_cons, takeWhile_map, dropWhile_map, hword,
          ← List.map_tail, split_map hf hblank hquote left, map_cons]

end Text

theorem mainLoop_eq : ∀ (left : Nat) (argv : List ArgPointer) (b : ArgBuffer UInt8),
    mainLoop left argv b = wmainLoop isBlank isQuote left argv b
  | 0, _, _ => rfl
  | left + 1, argv, b => by
    have hblank : (fun c : UInt8 => decide (c = 32 ∨ c = 9)) = isBlank := rfl
    rw [mainLoop, wmainLoop, hblank]
    cases (b.advance isBlank).after with
    | nil => rfl
    | cons c rest =>
      dsimp only
      rw [mainLoop_eq left]
      by_cases hquote : c = 34 ∨ c = 39
      · have h0 : c ≠ 0 := by rcases hquote with rfl | rfl <;> decide
        simp [isQuote, hquote, h0]
      · simp [isBlank, isQuote, hquote]

/-! ## The invocations -/

/-- What an entry point is called with for the text `text`. -/
structure Passes {α : Type} [Zero α] [DecidableEq α] (plain : α → Bool) (text : List α)
    (c : Invocation α) : Prop where
  atMost : c.argc ≤ 31
  count : c.argc = c.arguments.length + 1
  ended : c.argv[c.argc]? = some .null
  size : c.buffer.length ≤ 256
  inside : ∀ i, .arg i ∈ c.argv → ∃ rest, c.buffer.drop i = stringAt c.buffer i ++ 0 :: rest
  keeps : c.argc < 31 → c.arguments.flatten.filter plain = text.filter plain

theorem passes_of_loop {α : Type} [Zero α] [DecidableEq α] (blank quote : α → Bool) {text : List α}
    (hzero : 0 ∉ text) (hlen : text.length ≤ 255) :
    (invocation (wmainLoop blank quote 30 [.image] ⟨[], text⟩)).arguments = split blank quote 30 text ∧
      Passes (fun c => !blank c && !quote c) text
        (invocation (wmainLoop blank quote 30 [.image] ⟨[], text⟩)) := by
  obtain ⟨⟨new, hargv, hnew, hends⟩, -, hsize⟩ :=
    wmainLoop_arguments blank quote 30 [.image] ⟨[], text⟩ hzero
  generalize wmainLoop blank quote 30 [.image] ⟨[], text⟩ = r at *
  have harguments : (invocation r).arguments = split blank quote 30 text := by
    rw [← hnew]
    simp [Invocation.arguments, invocation, hargv, filterMap_append, filterMap_map,
      Function.comp_def]
  have hargc : (invocation r).argc = (split blank quote 30 text).length + 1 := by
    rw [← hnew]
    simp [invocation, hargv]
  refine ⟨harguments, ?_, ?_, ?_, ?_, ?_, ?_⟩
  · rw [hargc]
    exact Nat.succ_le_succ (split_length 30 text)
  · rw [hargc, harguments]
  · exact List.getElem?_concat_length
  · have hmemory : (invocation r).buffer.length = text.length + 1 := by
      rw [invocation, hsize, ArgBuffer.memory, length_append]
      rfl
    omega
  · intro i hi
    refine hends i ?_
    simpa [invocation, hargv] using hi
  · intro hlt
    rw [harguments]
    exact split_keeps (fun _ => rfl) 30 text (by omega)

end DiscouNT.Ke
