import DiscouNT.Ob.Object

/-!
# Ob.Accounts

The books of the object manager: how many slots are in use, how many references an object has, and
which delete procedures have run.

`ObDereferenceObject` runs the delete procedure while the slot still holds the object, now with a
count of 0, and that procedure may come back to the table. `Accounted dying` is the invariant with
the slots on their way out set apart; between two calls nothing is `dying`.
-/

namespace DiscouNT.Ob

open List

variable {δ : Type} {ob : ObState δ} {dying : Nat → Prop} {h : Nat} {o : Object}

/-- How often the delete procedure runs for an object of that type and body. -/
def owed (ob : ObState δ) (type body : Nat) : Nat :=
  if body ≠ 0 ∧ deleteProcOf ob type ≠ none then 1 else 0

structure Accounted (dying : Nat → Prop) (ob : ObState δ) : Prop where
  count : ob.count = ob.occupied
  /-- References held now and references given back make up those ever taken. -/
  refs : ∀ h o, ob.lookup h = some o → o.refCount + o.released = 1 + o.taken ∧ o.refCount < 2 ^ 32
  alive : ∀ h o, ob.lookup h = some o → (o.refCount = 0 ↔ dying h)
  created : ∀ h o, ob.lookup h = some o → .created o.serial h o.type o.body ∈ ob.history
  kept : ∀ h o, ob.lookup h = some o → ¬ dying h → ob.history.count (.deleted o.serial) = 0
  leaving : ∀ h o, ob.lookup h = some o → dying h →
    ob.history.count (.deleted o.serial) = owed ob o.type o.body
  numbered : ∀ s h t b, .created s h t b ∈ ob.history → s < ob.serial
  deletedNumbered : ∀ s, .deleted s ∈ ob.history → s < ob.serial
  once : ∀ s h t b h' t' b', .created s h t b ∈ ob.history → .created s h' t' b' ∈ ob.history →
    h = h' ∧ t = t' ∧ b = b'
  typed : ∀ s h t b, .created s h t b ∈ ob.history → obGetObjectType ob t ≠ none
  /-- An object that is no longer there has had its delete procedure run. -/
  gone : ∀ s h t b, .created s h t b ∈ ob.history →
    (∃ o, ob.lookup h = some o ∧ o.serial = s) ∨ ob.history.count (.deleted s) = owed ob t b

theorem accounted_init : Accounted (fun _ => False) (obInit : ObState δ) := by
  have hlook : ∀ k, (obInit : ObState δ).lookup k = none := by
    intro k
    unfold ObState.lookup obInit
    split <;> rfl
  have hhist : (obInit : ObState δ).history = [] := rfl
  refine ⟨?_, ?_, ?_, ?_, ?_, ?_, ?_, ?_, ?_, ?_, ?_⟩
  · simp [obInit, ObState.occupied]
  all_goals simp [hlook, hhist]

theorem Object.release_refCount (h1 : 1 ≤ o.refCount) (h2 : o.refCount < 2 ^ 32) :
    o.release.refCount = o.refCount - 1 := by
  cases o
  exact sub32_of_le h2 h1

@[simp] theorem Object.release_taken (o : Object) : o.release.taken = o.taken := by
  cases o
  rfl

@[simp] theorem Object.release_released (o : Object) : o.release.released = o.released + 1 := by
  cases o
  rfl

theorem Object.take_refCount (h : o.refCount + 1 < 2 ^ 32) :
    o.take.refCount = o.refCount + 1 := by
  cases o
  exact u32_of_lt h

namespace Accounted

section

variable (hacc : Accounted dying ob)
include hacc

theorem congr {dying' : Nat → Prop} (hd : ∀ k, dying k ↔ dying' k) :
    Accounted dying' ob := by
  have heq : dying = dying' := funext fun k => propext (hd k)
  exact heq ▸ hacc

theorem serial_inj {k : Nat} {o' : Object}
    (hl : ob.lookup h = some o) (hl' : ob.lookup k = some o') (hs : o.serial = o'.serial) :
    h = k := by
  have hc := hacc.created h o hl
  rw [hs] at hc
  exact (hacc.once _ _ _ _ _ _ _ hc (hacc.created k o' hl')).1

theorem put {o' : Object} (hl : ob.lookup h = some o)
    (htype : o'.type = o.type) (hbody : o'.body = o.body) (hserial : o'.serial = o.serial)
    (hrefs : o'.refCount + o'.released = 1 + o'.taken) (hlt : o'.refCount < 2 ^ 32)
    (hpos : 0 < o'.refCount) (hnot : ¬ dying h) : Accounted dying (ob.put h o') := by
  have hh := ObState.lt_of_lookup hl
  have hsome : ob.objects h ≠ none := by simp [ObState.objects_of_lookup hl]
  have hlook : ∀ k p, (ob.put h o').lookup k = some p → (k = h ∧ p = o') ∨
      ob.lookup k = some p := by
    intro k p hk
    rw [ObState.lookup_put hh] at hk
    split at hk
    · exact .inl ⟨by assumption, (Option.some.inj hk).symm⟩
    · exact .inr hk
  refine ⟨?_, fun k p hk => ?_, fun k p hk => ?_, fun k p hk => ?_, fun k p hk hd => ?_,
    fun k p hk hd => ?_, hacc.numbered, hacc.deletedNumbered, hacc.once, hacc.typed,
    fun s k t b hc => ?_⟩
  · rw [ObState.occupied_put_of_some hsome]
    exact hacc.count
  · rcases hlook k p hk with ⟨rfl, rfl⟩ | hk
    · exact ⟨hrefs, hlt⟩
    · exact hacc.refs k p hk
  · rcases hlook k p hk with ⟨rfl, rfl⟩ | hk
    · exact ⟨fun h0 => absurd h0 (by omega), fun hd => absurd hd hnot⟩
    · exact hacc.alive k p hk
  · rcases hlook k p hk with ⟨rfl, rfl⟩ | hk
    · rw [htype, hbody, hserial]
      exact hacc.created k o hl
    · exact hacc.created k p hk
  · rcases hlook k p hk with ⟨rfl, rfl⟩ | hk
    · rw [hserial]
      exact hacc.kept k o hl hnot
    · exact hacc.kept k p hk hd
  · rcases hlook k p hk with ⟨rfl, rfl⟩ | hk
    · exact absurd hd hnot
    · exact hacc.leaving k p hk hd
  · rcases hacc.gone s k t b hc with ⟨p, hp, hps⟩ | hgone
    · left
      rw [ObState.lookup_put hh]
      by_cases hkh : k = h
      · subst hkh
        rw [hl] at hp
        cases hp
        exact ⟨o', if_pos rfl, hserial.trans hps⟩
      · exact ⟨p, by rw [if_neg hkh]; exact hp, hps⟩
    · exact .inr hgone

theorem take (hl : ob.lookup h = some o) (hnot : ¬ dying h)
    (hroom : o.refCount + 1 < 2 ^ 32) : Accounted dying (ob.put h o.take) := by
  have hrefs := (hacc.refs h o hl).1
  have hcount := Object.take_refCount hroom
  refine hacc.put hl rfl rfl rfl ?_ (by omega) (by omega) hnot
  have htaken : o.take.taken = o.taken + 1 := rfl
  have hreleased : o.take.released = o.released := rfl
  omega

theorem release (hl : ob.lookup h = some o) (hnot : ¬ dying h)
    (hmore : 2 ≤ o.refCount) : Accounted dying (ob.put h o.release) := by
  obtain ⟨hrefs, hlt⟩ := hacc.refs h o hl
  have hcount := Object.release_refCount (by omega) hlt
  refine hacc.put hl o.release_type o.release_body o.release_serial ?_ (by omega) (by omega) hnot
  rw [Object.release_taken, Object.release_released]
  omega

end

end Accounted

/-- The note that `ObDereferenceObject` leaves when it calls the delete procedure. -/
def noteDelete (ob : ObState δ) (o : Object) : ObState δ :=
  if o.body ≠ 0 ∧ deleteProcOf ob o.type ≠ none then ob.log (.deleted o.serial) else ob

@[simp] theorem noteDelete_lookup (ob : ObState δ) (o : Object) (k : Nat) :
    (noteDelete ob o).lookup k = ob.lookup k := by
  unfold noteDelete
  split <;> rfl

@[simp] theorem noteDelete_objectTypes (ob : ObState δ) (o : Object) :
    (noteDelete ob o).objectTypes = ob.objectTypes := by
  unfold noteDelete
  split <;> rfl

@[simp] theorem noteDelete_serial (ob : ObState δ) (o : Object) :
    (noteDelete ob o).serial = ob.serial := by
  unfold noteDelete
  split <;> rfl

theorem mem_noteDelete {s k t b : Nat} :
    .created s k t b ∈ (noteDelete ob o).history ↔ .created s k t b ∈ ob.history := by
  unfold noteDelete
  split
  · simp [ObState.log]
  · rfl

theorem mem_deleted_noteDelete {s : Nat} (hm : .deleted s ∈ (noteDelete ob o).history) :
    s = o.serial ∨ .deleted s ∈ ob.history := by
  unfold noteDelete at hm
  split at hm
  · simpa [ObState.log] using hm
  · exact .inr hm

theorem count_noteDelete (s : Nat) :
    (noteDelete ob o).history.count (.deleted s) =
      ob.history.count (.deleted s) + if s = o.serial then owed ob o.type o.body else 0 := by
  unfold noteDelete owed
  by_cases hs : s = o.serial
  · subst hs
    split
    · simp [ObState.log]
    · simp
  · have hne : Event.deleted o.serial ≠ Event.deleted s := by
      intro heq
      cases heq
      exact hs rfl
    split
    · simp [ObState.log, count_cons_of_ne hne]
    · simp

theorem owed_congr {ob' : ObState δ} (htypes : ob'.objectTypes = ob.objectTypes) (t b : Nat) :
    owed ob' t b = owed ob t b := by
  unfold owed deleteProcOf obGetObjectType
  rw [htypes]

namespace Accounted

theorem startDelete (hacc : Accounted dying ob) (hl : ob.lookup h = some o) (hnot : ¬ dying h)
    (hlast : o.refCount = 1) :
    Accounted (fun k => k = h ∨ dying k) (noteDelete (ob.put h o.release) o.release) := by
  have hh := ObState.lt_of_lookup hl
  have hsome : ob.objects h ≠ none := by simp [ObState.objects_of_lookup hl]
  obtain ⟨hrefs, _⟩ := hacc.refs h o hl
  have hzero : o.release.refCount = 0 := by
    rw [Object.release_refCount (by omega) (by omega), hlast]
  have hlook : ∀ k p, (noteDelete (ob.put h o.release) o.release).lookup k = some p →
      (k = h ∧ p = o.release) ∨ (k ≠ h ∧ ob.lookup k = some p) := by
    intro k p hk
    rw [noteDelete_lookup, ObState.lookup_put hh] at hk
    split at hk
    · exact .inl ⟨by assumption, (Option.some.inj hk).symm⟩
    · exact .inr ⟨by assumption, hk⟩
  have howed : ∀ t b, owed (noteDelete (ob.put h o.release) o.release) t b = owed ob t b :=
    owed_congr (by simp)
  -- the note is about the object at `h` and about no other
  have hcount : ∀ s, (noteDelete (ob.put h o.release) o.release).history.count (.deleted s) =
      ob.history.count (.deleted s) + if s = o.serial then owed ob o.type o.body else 0 := by
    intro s
    rw [count_noteDelete, Object.release_serial, Object.release_type, Object.release_body,
      ObState.put_history, owed_congr ObState.put_objectTypes]
  have hother : ∀ k p, k ≠ h → ob.lookup k = some p → p.serial ≠ o.serial :=
    fun k p hne hk hs => hne (hacc.serial_inj hk hl hs)
  have hmem : ∀ {s k t b}, .created s k t b ∈
      (noteDelete (ob.put h o.release) o.release).history → .created s k t b ∈ ob.history := by
    intro s k t b hc
    have hput := mem_noteDelete.mp hc
    exact hput
  refine ⟨?_, fun k p hk => ?_, fun k p hk => ?_, fun k p hk => ?_, fun k p hk hd => ?_,
    fun k p hk hd => ?_, fun s k t b hc => ?_, fun s hc => ?_, fun s k t b k' t' b' hc hc' => ?_,
    fun s k t b hc => ?_, fun s k t b hc => ?_⟩
  · have hcnt : (noteDelete (ob.put h o.release) o.release).count = ob.count := by
      unfold noteDelete
      split <;> rfl
    have hocc : (noteDelete (ob.put h o.release) o.release).occupied =
        (ob.put h o.release).occupied := by
      unfold noteDelete
      split <;> rfl
    rw [hcnt, hocc, ObState.occupied_put_of_some hsome]
    exact hacc.count
  · rcases hlook k p hk with ⟨rfl, rfl⟩ | ⟨_, hk⟩
    · rw [Object.release_taken, Object.release_released, hzero]
      omega
    · exact hacc.refs k p hk
  · rcases hlook k p hk with ⟨rfl, rfl⟩ | ⟨hne, hk⟩
    · exact ⟨fun _ => .inl rfl, fun _ => hzero⟩
    · rw [hacc.alive k p hk]
      exact ⟨.inr, fun h' => h'.resolve_left hne⟩
  · rw [mem_noteDelete]
    rcases hlook k p hk with ⟨rfl, rfl⟩ | ⟨_, hk⟩
    · simpa using hacc.created k o hl
    · exact hacc.created k p hk
  · rcases hlook k p hk with ⟨rfl, rfl⟩ | ⟨hne, hk⟩
    · exact absurd (.inl rfl) hd
    · rw [hcount, if_neg (hother k p hne hk), hacc.kept k p hk (fun h' => hd (.inr h'))]
  · rcases hlook k p hk with ⟨rfl, rfl⟩ | ⟨hne, hk⟩
    · rw [hcount, howed, Object.release_serial, if_pos rfl, hacc.kept k o hl hnot,
        Object.release_type, Object.release_body, Nat.zero_add]
    · rw [hcount, howed, if_neg (hother k p hne hk), Nat.add_zero]
      exact hacc.leaving k p hk (hd.resolve_left hne)
  · rw [noteDelete_serial]
    exact hacc.numbered s k t b (hmem hc)
  · rw [noteDelete_serial]
    rcases mem_deleted_noteDelete hc with rfl | hc
    · rw [Object.release_serial]
      exact hacc.numbered _ _ _ _ (hacc.created h o hl)
    · exact hacc.deletedNumbered s hc
  · exact hacc.once s k t b k' t' b' (hmem hc) (hmem hc')
  · have := hacc.typed s k t b (hmem hc)
    unfold obGetObjectType at this ⊢
    rw [noteDelete_objectTypes]
    exact this
  · have hc' := hmem hc
    rcases hacc.gone s k t b hc' with ⟨p, hp, hps⟩ | hgone
    · left
      rw [noteDelete_lookup, ObState.lookup_put hh]
      by_cases hkh : k = h
      · subst hkh
        rw [hl] at hp
        cases hp
        exact ⟨o.release, if_pos rfl, by rw [Object.release_serial]; exact hps⟩
      · exact ⟨p, by rw [if_neg hkh]; exact hp, hps⟩
    · by_cases hs : s = o.serial
      · -- the object at `h` is still there
        subst hs
        obtain ⟨rfl, _, _⟩ := hacc.once _ _ _ _ _ _ _ hc' (hacc.created h o hl)
        left
        rw [noteDelete_lookup, ObState.lookup_put hh]
        exact ⟨o.release, if_pos rfl, o.release_serial⟩
      · right
        rw [hcount, howed, if_neg hs, Nat.add_zero]
        exact hgone

theorem clear (hacc : Accounted dying ob) (hl : ob.lookup h = some o) (hd : dying h) :
    Accounted (fun k => k ≠ h ∧ dying k) (ob.clear h) := by
  have hh := ObState.lt_of_lookup hl
  have hsome : ob.objects h ≠ none := by simp [ObState.objects_of_lookup hl]
  have hocc := ObState.occupied_clear hh hsome
  have hlook : ∀ k p, (ob.clear h).lookup k = some p → k ≠ h ∧ ob.lookup k = some p := by
    intro k p hk
    rw [ObState.lookup_clear] at hk
    split at hk
    · cases hk
    · exact ⟨by assumption, hk⟩
  refine ⟨?_, fun k p hk => hacc.refs k p (hlook k p hk).2, fun k p hk => ?_,
    fun k p hk => hacc.created k p (hlook k p hk).2, fun k p hk hd' => ?_, fun k p hk hd' => ?_,
    hacc.numbered, hacc.deletedNumbered, hacc.once, hacc.typed, fun s k t b hc => ?_⟩
  · have hle : ob.occupied ≤ maxObjects := ObState.occupied_le
    have hmax : maxObjects = 256 := rfl
    have hcount := hacc.count
    change sub32 ob.count 1 = (ob.clear h).occupied
    rw [sub32_of_le (by omega) (by omega)]
    omega
  · obtain ⟨hne, hk⟩ := hlook k p hk
    rw [hacc.alive k p hk]
    exact ⟨fun h' => ⟨hne, h'⟩, fun h' => h'.2⟩
  · obtain ⟨hne, hk⟩ := hlook k p hk
    exact hacc.kept k p hk fun h' => hd' ⟨hne, h'⟩
  · obtain ⟨_, hk⟩ := hlook k p hk
    exact hacc.leaving k p hk hd'.2
  · rcases hacc.gone s k t b hc with ⟨p, hp, hps⟩ | hgone
    · by_cases hkh : k = h
      · subst hkh
        rw [hl] at hp
        cases hp
        right
        obtain ⟨_, rfl, rfl⟩ := hacc.once _ _ _ _ _ _ _ hc (hps ▸ hacc.created k o hl)
        rw [← hps]
        exact hacc.leaving k o hl hd
      · left
        rw [ObState.lookup_clear, if_neg hkh]
        exact ⟨p, hp, hps⟩
    · exact .inr hgone

/-! ## New objects and types -/

theorem create (hacc : Accounted dying ob) (hnone : ∀ k, ob.objects k = none → ¬ dying k)
    (allocated : Bool) (type : Nat) (name : Option Name) (body size : Nat) :
    Accounted dying (obCreateObject allocated type name body size ob).2 := by
  rcases obCreateObject_cases allocated type name body size ob with hno | ⟨i, hi, hfree, htype, hyes⟩
  · rw [hno]
    exact hacc
  rw [hyes]
  have hlook : ∀ k p, (ob.put i ⟨storedName (name.getD []), type, 1, body, size, ob.serial, 0,
      0⟩).lookup k = some p → (k = i ∧ p = ⟨storedName (name.getD []), type, 1, body, size,
        ob.serial, 0, 0⟩) ∨ (k ≠ i ∧ ob.lookup k = some p) := by
    intro k p hk
    rw [ObState.lookup_put hi] at hk
    split at hk
    · exact .inl ⟨by assumption, (Option.some.inj hk).symm⟩
    · exact .inr ⟨by assumption, hk⟩
  have hnew : ∀ k t b, .created ob.serial k t b ∉ ob.history := fun k t b hc =>
    absurd (hacc.numbered _ _ _ _ hc) (Nat.lt_irrefl _)
  have hcount0 : ob.history.count (.deleted ob.serial) = 0 := by
    rw [count_eq_zero]
    exact fun hm => absurd (hacc.deletedNumbered _ hm) (Nat.lt_irrefl _)
  have hcount : ∀ s, (Event.created ob.serial i type body :: ob.history).count (.deleted s) =
      ob.history.count (.deleted s) := fun s => count_cons_of_ne (by simp)
  refine ⟨?_, fun k p hk => ?_, fun k p hk => ?_, fun k p hk => ?_, fun k p hk hd => ?_,
    fun k p hk hd => ?_, fun s k t b hc => ?_, fun s hc => ?_, fun s k t b k' t' b' hc hc' => ?_,
    fun s k t b hc => ?_, fun s k t b hc => ?_⟩
  · have hocc : (ob.put i ⟨storedName (name.getD []), type, 1, body, size, ob.serial, 0,
      0⟩).occupied = ob.occupied + 1 := ObState.occupied_put_of_none hi hfree
    have hle : (ob.put i ⟨storedName (name.getD []), type, 1, body, size, ob.serial, 0,
      0⟩).occupied ≤ maxObjects := ObState.occupied_le
    have hmax : maxObjects = 256 := rfl
    change u32 (ob.count + 1) = (ob.put i _).occupied
    rw [hocc, hacc.count]
    exact u32_of_lt (by omega)
  · rcases hlook k p hk with ⟨rfl, rfl⟩ | ⟨_, hk⟩
    · exact ⟨rfl, Nat.one_lt_two_pow (by decide)⟩
    · exact hacc.refs k p hk
  · rcases hlook k p hk with ⟨rfl, rfl⟩ | ⟨_, hk⟩
    · exact ⟨fun h0 => absurd h0 (by simp), fun hd => absurd hd (hnone k hfree)⟩
    · exact hacc.alive k p hk
  · rcases hlook k p hk with ⟨rfl, rfl⟩ | ⟨_, hk⟩
    · exact mem_cons_self
    · exact mem_cons_of_mem _ (hacc.created k p hk)
  · dsimp only
    rw [hcount]
    rcases hlook k p hk with ⟨rfl, rfl⟩ | ⟨_, hk⟩
    · exact hcount0
    · exact hacc.kept k p hk hd
  · dsimp only
    rw [hcount]
    rcases hlook k p hk with ⟨rfl, rfl⟩ | ⟨_, hk⟩
    · exact absurd hd (hnone k hfree)
    · exact hacc.leaving k p hk hd
  · dsimp only
    rcases mem_cons.mp hc with heq | hc
    · cases heq
      omega
    · have := hacc.numbered s k t b hc
      omega
  · dsimp only
    rcases mem_cons.mp hc with heq | hc
    · cases heq
    · have := hacc.deletedNumbered s hc
      omega
  · rcases mem_cons.mp hc with heq | hc
    · cases heq
      rcases mem_cons.mp hc' with heq' | hc'
      · cases heq'
        exact ⟨rfl, rfl, rfl⟩
      · exact absurd hc' (hnew _ _ _)
    · rcases mem_cons.mp hc' with heq' | hc'
      · cases heq'
        exact absurd hc (hnew _ _ _)
      · exact hacc.once s k t b k' t' b' hc hc'
  · rcases mem_cons.mp hc with heq | hc
    · cases heq
      exact htype
    · exact hacc.typed s k t b hc
  · rcases mem_cons.mp hc with heq | hc
    · cases heq
      exact .inl ⟨_, (ObState.lookup_put hi).trans (if_pos rfl), rfl⟩
    · rcases hacc.gone s k t b hc with ⟨p, hp, hps⟩ | hgone
      · have hki : k ≠ i := by
          rintro rfl
          rw [ObState.objects_of_lookup hp] at hfree
          cases hfree
        exact .inl ⟨p, ((ObState.lookup_put hi).trans (if_neg hki)).trans hp, hps⟩
      · dsimp only
        rw [hcount]
        exact .inr hgone

theorem register (hacc : Accounted dying ob) (name : Name) (proc : Option δ) :
    Accounted dying (obRegisterObjectType name proc ob).2 := by
  unfold obRegisterObjectType
  split
  · exact hacc
  · split
    · exact hacc
    · split
      · exact hacc
      · -- a type that has objects is already registered, so nothing changes for it
        have hget : ∀ t, obGetObjectType ob t ≠ none →
            obGetObjectType { ob with
              objectTypes := ob.objectTypes ++ [⟨storedName name, proc⟩] } t =
                obGetObjectType ob t := by
          intro t ht
          unfold obGetObjectType at ht ⊢
          split at ht
          · exact absurd rfl ht
          · rename_i h0
            rw [if_neg h0, if_neg h0]
            have hlt : t < ob.objectTypes.length := by
              by_contra hge
              exact ht (getElem?_eq_none (by omega))
            exact getElem?_append_left hlt
        have howed : ∀ t b, obGetObjectType ob t ≠ none →
            owed { ob with objectTypes := ob.objectTypes ++ [⟨storedName name, proc⟩] } t b =
              owed ob t b := by
          intro t b ht
          unfold owed deleteProcOf
          rw [hget t ht]
        refine ⟨hacc.count, hacc.refs, hacc.alive, hacc.created, hacc.kept, fun k p hk hd => ?_,
          hacc.numbered, hacc.deletedNumbered, hacc.once, fun s k t b hc => ?_,
          fun s k t b hc => ?_⟩
        · rw [howed _ _ (hacc.typed _ _ _ _ (hacc.created k p hk))]
          exact hacc.leaving k p hk hd
        · rw [hget t (hacc.typed s k t b hc)]
          exact hacc.typed s k t b hc
        · rw [howed _ _ (hacc.typed s k t b hc)]
          exact hacc.gone s k t b hc

end Accounted

end DiscouNT.Ob
