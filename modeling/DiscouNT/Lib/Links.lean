import DiscouNT.Lib.Chain

/-!
# Lib.Links

Unlinking from a singly linked list of allocated nodes, with 0 for null. `next` gives the link of a
node, and `none` for an address where no node is allocated.

* `Linked next p l`: the nodes of the list that starts at `p` are `l`.
* `unlink next d fuel p`: walk from `p` to the link that holds `d`, and store there what `d` links to.
  There is no result when the walk reads a node that is not allocated.
-/

namespace Lib

open List Function Option

def field (next : Nat → Option Nat) (a : Nat) : Nat := (next a).getD 0

def Linked (next : Nat → Option Nat) (p : Nat) (l : List Nat) : Prop :=
  Chain (field next) p l ∧ ∀ a ∈ l, (next a).isSome

/-- `while (*link && *link != d) link = &(*link)->next;`: the link it stops at, `none` for the head
of the list and `some a` for that of the node `a`, and what it holds. -/
def walk (next : Nat → Option Nat) (d : Nat) : Nat → Option Nat → Nat → Option (Option Nat × Nat)
  | 0, _, _ => none
  | fuel + 1, link, cur =>
    if cur = 0 ∨ cur = d then some (link, cur)
    else (next cur).bind fun n => walk next d fuel (some cur) n

def redirect (link : Option Nat) (v p : Nat) (next : Nat → Option Nat) : Nat × (Nat → Option Nat) :=
  match link with
  | none => (v, next)
  | some a => (p, update next a (some v))

def unlink (next : Nat → Option Nat) (d fuel p : Nat) : Option (Nat × (Nat → Option Nat)) :=
  (walk next d fuel none p).bind fun (link, cur) =>
    if cur = d then (next d).map fun v => redirect link v p next else some (p, next)

section Links

variable {next next' : Nat → Option Nat} {p a d fuel : Nat} {l : List Nat}

theorem Linked.congr (h : Linked next p l) (hn : ∀ a ∈ l, next' a = next a) : Linked next' p l := by
  refine ⟨h.1.congr fun a ha => ?_, fun a ha => ?_⟩
  · rw [field, field, hn a ha]
  · rw [hn a ha]
    exact h.2 a ha

theorem linked_nil : Linked next 0 [] := ⟨⟨rfl, fun _ h => absurd h not_mem_nil⟩,
  fun _ h => absurd h not_mem_nil⟩

theorem Linked.nodup (h : Linked next p l) : l.Nodup := h.1.nodup

theorem Linked.unique {l' : List Nat} (h : Linked next p l) (h' : Linked next p l') : l = l' :=
  h.1.unique h'.1

theorem Linked.push (h : Linked next p l) (ha : a ≠ 0) (hnew : a ∉ l) :
    Linked (update next a (some p)) a (a :: l) := by
  have hl : Linked (update next a (some p)) p l := by
    refine h.congr fun b hb => update_of_ne ?_ _ _
    rintro rfl
    exact hnew hb
  refine ⟨⟨⟨rfl, ?_⟩, fun b hb => ?_⟩, fun b hb => ?_⟩
  · rw [field, update_self]
    exact hl.1.1
  · rcases mem_cons.mp hb with rfl | hb
    · exact ha
    · exact h.1.2 b hb
  · rcases mem_cons.mp hb with rfl | hb
    · rw [update_self]
      rfl
    · exact hl.2 b hb

theorem walk_stop {link link' : Option Nat} {cur stop : Nat}
    (h : walk next d fuel link cur = some (link', stop)) : stop = 0 ∨ stop = d := by
  induction fuel generalizing link cur with
  | zero => cases h
  | succ fuel ih =>
    rw [walk] at h
    split at h
    · rename_i hstop
      cases h
      exact hstop
    · obtain ⟨n, -, hn⟩ := bind_eq_some_iff.mp h
      exact ih hn

theorem walk_seg {pre : List Nat} {stop cur : Nat} {link : Option Nat}
    (hseg : Seg (field next) cur pre stop) (hpre : ∀ x ∈ pre, x ≠ 0 ∧ x ≠ d ∧ (next x).isSome)
    (hstop : stop = 0 ∨ stop = d) (hfuel : pre.length < fuel) :
    walk next d fuel link cur = some (pre.getLast?.or link, stop) := by
  induction pre generalizing cur fuel link with
  | nil =>
    obtain ⟨fuel, rfl⟩ : ∃ f, fuel = f + 1 := ⟨fuel - 1, by omega⟩
    obtain rfl : cur = stop := hseg
    rw [walk, if_pos hstop]
    rfl
  | cons x pre ih =>
    obtain ⟨fuel, rfl⟩ : ∃ f, fuel = f + 1 := ⟨fuel - 1, by omega⟩
    obtain ⟨rfl, hseg⟩ := hseg
    obtain ⟨h0, hd, hsome⟩ := hpre cur mem_cons_self
    obtain ⟨n, hn⟩ := isSome_iff_exists.mp hsome
    rw [field, hn, getD_some] at hseg
    simp only [length_cons] at hfuel
    rw [walk, if_neg (by rintro (h | h); exacts [h0 h, hd h]), hn, bind_some,
      ih hseg (fun y hy => hpre y (mem_cons_of_mem _ hy)) (by omega), getLast?_cons]
    cases pre.getLast? <;> rfl

theorem unlink_null (h0 : next 0 = none) : unlink next 0 fuel p = none := by
  rw [unlink, bind_eq_none_iff]
  rintro ⟨link, cur⟩ hwalk
  have hcur : cur = 0 := (walk_stop hwalk).elim id id
  rw [hcur]
  simp [h0]

theorem Linked.unlink_of_not_mem (h : Linked next p l) (hd : d ≠ 0) (hmem : d ∉ l)
    (hfuel : l.length < fuel) : unlink next d fuel p = some (p, next) := by
  have hwalk : walk next d fuel none p = some (l.getLast?.or none, 0) := by
    refine walk_seg h.1.1 (fun x hx => ⟨h.1.2 x hx, ?_, h.2 x hx⟩) (.inl rfl) hfuel
    rintro rfl
    exact hmem hx
  rw [Lib.unlink, hwalk, bind_some]
  exact if_neg hd.symm

theorem Linked.unlink (h : Linked next p l) (hmem : d ∈ l) (hfuel : l.length < fuel) :
    ∃ p' next', Lib.unlink next d fuel p = some (p', next') ∧ Linked next' p' (l.erase d) ∧
      (∀ a, (next' a).isSome = (next a).isSome) ∧ ∀ a, a ∉ l → next' a = next a := by
  obtain ⟨pre, post, rfl⟩ := append_of_mem hmem
  have hdpre : d ∉ pre := not_mem_before h.nodup
  obtain ⟨q, hseg, rfl, -⟩ := seg_append_iff.mp h.1.1
  obtain ⟨v, hv⟩ := isSome_iff_exists.mp (h.2 q hmem)
  have hfield : field next q = v := by rw [field, hv]; rfl
  have hwalk : walk next q fuel none p = some (pre.getLast?.or none, q) := by
    refine walk_seg hseg (fun x hx => ?_) (.inr rfl) ?_
    · refine ⟨h.1.2 x (mem_append_left _ hx), ?_, h.2 x (mem_append_left _ hx)⟩
      rintro rfl
      exact hdpre hx
    · rw [length_append, length_cons] at hfuel
      omega
  have hunlink : Lib.unlink next q fuel p = some (redirect pre.getLast? v p next) := by
    simp [Lib.unlink, hwalk, hv]
  have herase : (pre ++ q :: post).erase q = pre ++ post := by
    rw [erase_append_right _ hdpre, erase_cons_head]
  rw [hunlink, herase]
  rcases eq_nil_or_concat pre with rfl | ⟨pre', x, rfl⟩
  · -- the head of the list is redirected
    refine ⟨v, next, rfl, ⟨?_, fun a ha => h.2 a (mem_cons_of_mem _ ha)⟩, fun _ => rfl,
      fun _ _ => rfl⟩
    have hdrop := h.1.drop
    rwa [hfield] at hdrop
  · rw [concat_eq_append] at h hmem hdpre ⊢
    have hxl : x ∈ (pre' ++ [x]) ++ q :: post :=
      mem_append_left _ (mem_append_right _ mem_cons_self)
    have hother : ∀ a, a ≠ x → update next x (some v) a = next a := fun a ha =>
      update_of_ne ha _ _
    refine ⟨p, update next x (some v), ?_, ⟨?_, fun a ha => ?_⟩, fun a => ?_,
      fun a ha => hother a ?_⟩
    · rw [getLast?_append]
      rfl
    · have hchain := h.1
      rw [append_assoc, singleton_append] at hchain ⊢
      refine hchain.unlink.congr fun a _ => ?_
      rw [field, hfield]
      by_cases hax : a = x
      · subst hax
        rw [update_self, update_self]
        rfl
      · rw [hother a hax, update_of_ne hax]
        rfl
    · by_cases hax : a = x
      · subst hax
        rw [update_self]
        rfl
      · rw [hother a hax]
        refine h.2 a ?_
        rcases mem_append.mp ha with ha | ha
        · exact mem_append_left _ ha
        · exact mem_append_right _ (mem_cons_of_mem _ ha)
    · by_cases hax : a = x
      · subst hax
        rw [update_self, h.2 a hxl]
        rfl
      · rw [hother a hax]
    · rintro rfl
      exact ha hxl

end Links

end Lib
