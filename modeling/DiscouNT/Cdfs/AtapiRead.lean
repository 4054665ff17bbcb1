import DiscouNT.Cdfs.Atapi

/-!
# Cdfs.AtapiRead

What `atapi_read_sectors_internal` does with a drive that may do anything.
-/

namespace DiscouNT.Cdfs

open List

def drqSeen (base : Nat) : List Access → Bool
  | [] => false
  | .inb port value :: log => decide (port = base + 7) && isDrq value || drqSeen base log
  | .outb port _ :: log => !decide (port = base + 7) && drqSeen base log
  | .inw _ _ :: log => drqSeen base log
  | .outw _ _ :: log => drqSeen base log

def PacketsAfterDrq (base : Nat) : List Access → Prop
  | [] => True
  | .outw _ _ :: log => drqSeen base log = true ∧ PacketsAfterDrq base log
  | .inb _ _ :: log => PacketsAfterDrq base log
  | .outb _ _ :: log => PacketsAfterDrq base log
  | .inw _ _ :: log => PacketsAfterDrq base log

def Covered (r : Registers) (stores : List Store) (p : Nat) : Prop :=
  ∃ s ∈ stores, s.offset ≤ p ∧ p < s.offset + 2 ∧ ∃ k, s.word = r.data k

/-- The function returns, words are written after DRQ only, stores are inside the buffer, and with
the result 1 every byte was stored. -/
inductive Sound (r : Registers) (base : Nat) (sectors : UInt8) : Option (Bool × Exchange) → Prop where
  | intro (ok : Bool) (x : Exchange) (hpackets : PacketsAfterDrq base x.log)
      (hinside : ∀ s ∈ x.stores, s.offset + 2 ≤ wantedBytes sectors)
      (hstored : ok = true → ∀ p < wantedBytes sectors, Covered r x.stores p) :
      Sound r base sectors (some (ok, x))

/-- After the PACKET command the drive shows an error or DRQ before the wait runs out. -/
def Answers (r : Registers) : Prop :=
  ∀ i, Passes readyVerdict r.status 0 i → ∃ m < 100000, drqVerdict (r.status (i + m)) ≠ .again

/-- The drive serves the rest of the transfer in phases of these lengths. -/
inductive Served (r : Registers) (wanted : Nat) : (i transferred counts : Nat) → List Nat → Prop where
  | done {i transferred counts : Nat} (hdone : transferred = wanted) :
      Served r wanted i transferred counts []
  | phase {i i' transferred counts : Nat} {phases : List Nat} (hlt : transferred < wanted)
      (hwait : Passes dataVerdict r.status i i') (hdrq : isDrq (r.status i') = true)
      (hrest : Served r wanted (i' + 1) (transferred + phaseLength r wanted transferred counts)
        (counts + 1) phases) :
      Served r wanted i transferred counts (phaseLength r wanted transferred counts :: phases)

/-- A transfer that the drive serves to its end has no phase of an odd length. -/
def EvenPhases (r : Registers) (sectors : UInt8) : Prop :=
  ∀ i i' phases, Passes readyVerdict r.status 0 i → Passes drqVerdict r.status i i' →
    Served r (wantedBytes sectors) i' 0 0 phases → ∀ phase ∈ phases, phase % 2 = 0

section Log

variable {r : Registers} {base : Nat}

@[simp] theorem packets_readStatus (x : Exchange) :
    PacketsAfterDrq base (x.readStatus r base).log ↔ PacketsAfterDrq base x.log := Iff.rfl

@[simp] theorem packets_reportError (x : Exchange) :
    PacketsAfterDrq base (reportError r base x).log ↔ PacketsAfterDrq base x.log := Iff.rfl

@[simp] theorem packets_polled (n : Nat) (x : Exchange) :
    PacketsAfterDrq base (x.polled r base n).log ↔ PacketsAfterDrq base x.log := by
  induction n generalizing x with
  | zero => rfl
  | succ n ih => rw [Exchange.polled, ih, packets_readStatus]

theorem drqSeen_sendCommand (x : Exchange) : drqSeen base (sendCommand base x).log = false := by
  simp [sendCommand, Exchange.outb, drqSeen]

theorem drqSeen_polled (n : Nat) (x : Exchange) :
    drqSeen base (x.polled r base n).log = true ↔
      drqSeen base x.log = true ∨ ∃ m < n, isDrq (r.status (x.statusReads + m)) = true := by
  induction n generalizing x with
  | zero => simp [Exchange.polled]
  | succ n ih =>
    have hread : drqSeen base (x.readStatus r base).log = true ↔
        isDrq (r.status x.statusReads) = true ∨ drqSeen base x.log = true := by
      simp [Exchange.readStatus, drqSeen]
    rw [Exchange.polled, ih, hread, readStatus_statusReads]
    constructor
    · rintro ((hfirst | hseen) | ⟨m, hm, hdrq⟩)
      · exact .inr ⟨0, Nat.succ_pos n, hfirst⟩
      · exact .inl hseen
      · exact .inr ⟨m + 1, by omega, by rwa [Nat.add_comm m 1, ← Nat.add_assoc]⟩
    · rintro (hseen | ⟨m, hm, hdrq⟩)
      · exact .inl (.inr hseen)
      · cases m with
        | zero => exact .inl (.inl hdrq)
        | succ m => exact .inr ⟨m, by omega, by rwa [Nat.add_comm m 1, ← Nat.add_assoc] at hdrq⟩

theorem packets_foldl {words : List UInt16} (hwords : words ≠ []) (x : Exchange) :
    PacketsAfterDrq base (words.foldl
        (fun x word => { x with log := .outw base word :: x.log }) x).log ↔
      PacketsAfterDrq base x.log ∧ drqSeen base x.log = true := by
  induction words generalizing x with
  | nil => exact absurd rfl hwords
  | cons word words ih =>
    rw [foldl_cons]
    cases words with
    | nil => exact And.comm
    | cons word' words =>
      rw [ih (cons_ne_nil _ _)]
      simp only [PacketsAfterDrq, drqSeen]
      constructor
      · rintro ⟨⟨hseen, hpackets⟩, -⟩
        exact ⟨hpackets, hseen⟩
      · rintro ⟨hpackets, hseen⟩
        exact ⟨⟨hseen, hpackets⟩, hseen⟩

theorem packets_sendPacket (lba : UInt32) (sectors : UInt8) (x : Exchange) :
    PacketsAfterDrq base (sendPacket r base lba sectors x).log ↔
      PacketsAfterDrq base x.log ∧ drqSeen base x.log = true := by
  have hseen : drqSeen base (x.inb (base + 2) r.reason).log = drqSeen base x.log := by
    simp [Exchange.inb, drqSeen]
  rw [sendPacket, packets_foldl (by simp [packet, words]), hseen]
  rfl

theorem foldl_outw (words : List UInt16) (x : Exchange) :
    (words.foldl (fun x word => { x with log := .outw base word :: x.log }) x).stores = x.stores ∧
      (words.foldl (fun x word => { x with log := .outw base word :: x.log }) x).statusReads =
        x.statusReads ∧
      (words.foldl (fun x word => { x with log := .outw base word :: x.log }) x).countReads =
        x.countReads := by
  induction words generalizing x with
  | nil => exact ⟨rfl, rfl, rfl⟩
  | cons word words ih => exact ih _

end Log

section Phase

variable {r : Registers} {base : Nat}

theorem announcedLength_pos (counts : Nat) : 0 < announcedLength r counts := by
  unfold announcedLength
  simp only
  split <;> omega

theorem phaseLength_le (wanted transferred counts : Nat) :
    phaseLength r wanted transferred counts ≤ wanted - transferred := by
  unfold phaseLength
  simp only
  split <;> omega

theorem phaseLength_pos {wanted transferred : Nat} (h : transferred < wanted) (counts : Nat) :
    0 < phaseLength r wanted transferred counts := by
  have := @announcedLength_pos r counts
  unfold phaseLength
  simp only
  split <;> omega

theorem storePhase_spec : ∀ {count offset : Nat} {x : Exchange},
    (storePhase r base count offset x).statusReads = x.statusReads ∧
      (storePhase r base count offset x).countReads = x.countReads ∧
      (PacketsAfterDrq base (storePhase r base count offset x).log ↔ PacketsAfterDrq base x.log) ∧
      ∃ new, (storePhase r base count offset x).stores = new ++ x.stores ∧
        (∀ s ∈ new, offset ≤ s.offset ∧ s.offset + 2 ≤ offset + 2 * count) ∧
          ∀ p, offset ≤ p → p < offset + 2 * count → Covered r new p := by
  intro count
  induction count with
  | zero => exact fun {offset x} => ⟨rfl, rfl, Iff.rfl, [], rfl, by simp, fun p h1 h2 => by omega⟩
  | succ count ih =>
    intro offset x
    obtain ⟨hstatus, hcounts, hpackets, new, hnew, hinside, hcovered⟩ :=
      @ih (offset + 2) (x.storeData r base offset)
    rw [storePhase]
    refine ⟨hstatus, hcounts, hpackets, new ++ [⟨offset, r.data x.dataReads⟩], ?_, ?_, ?_⟩
    · rw [hnew, append_assoc]
      rfl
    · intro s hs
      rcases mem_append.mp hs with hs | hs
      · have := hinside s hs
        omega
      · obtain rfl := mem_singleton.mp hs
        simp only
        omega
    · intro p hp hlt
      by_cases hfirst : p < offset + 2
      · exact ⟨_, mem_append_right _ mem_cons_self, hp, hfirst, _, rfl⟩
      · obtain ⟨s, hs, hcover⟩ := hcovered p (by omega) (by omega)
        exact ⟨s, mem_append_left _ hs, hcover⟩

theorem Covered.append_left {new stores : List Store} {p : Nat} (h : Covered r new p) :
    Covered r (new ++ stores) p := by
  obtain ⟨s, hs, hcover⟩ := h
  exact ⟨s, mem_append_left _ hs, hcover⟩

theorem Covered.append_right {new stores : List Store} {p : Nat} (h : Covered r stores p) :
    Covered r (new ++ stores) p := by
  obtain ⟨s, hs, hcover⟩ := h
  exact ⟨s, mem_append_right _ hs, hcover⟩

theorem transferLoop_cases (wanted rounds transferred : Nat) (x : Exchange) :
    (wanted ≤ transferred ∧
        transferLoop r base wanted (rounds + 1) transferred x = some (some transferred, x)) ∨
      (transferred < wanted ∧ (∃ res x', res ≠ some wanted ∧ x'.stores = x.stores ∧
          (PacketsAfterDrq base x'.log ↔ PacketsAfterDrq base x.log) ∧
            transferLoop r base wanted (rounds + 1) transferred x = some (res, x')) ∧
          ∀ phases, ¬ Served r wanted x.statusReads transferred x.countReads phases) ∨
      (transferred < wanted ∧ ∃ i' x', Passes dataVerdict r.status x.statusReads i' ∧
        isDrq (r.status i') = true ∧ x'.statusReads = i' + 1 ∧ x'.countReads = x.countReads + 1 ∧
        x'.stores = x.stores ∧ (PacketsAfterDrq base x'.log ↔ PacketsAfterDrq base x.log) ∧
          transferLoop r base wanted (rounds + 1) transferred x =
            transferLoop r base wanted rounds
              (transferred + phaseLength r wanted transferred x.countReads)
              (storePhase r base (phaseLength r wanted transferred x.countReads / 2) transferred x')) := by
  rw [transferLoop]
  by_cases hlt : transferred < wanted
  · right
    rw [if_pos hlt]
    by_cases hwait : ∃ i', Passes dataVerdict r.status x.statusReads i'
    · obtain ⟨i', hpass⟩ := hwait
      obtain ⟨n, timeout, rfl, hne, hrun⟩ := @poll_passed r base dataVerdict x i' hpass
      have hstatus := @polled_statusReads r base n x
      have hcounts := @polled_countReads r base n x
      have hstores := @polled_stores r base n x
      have hlog := @packets_polled r base n x
      rw [hrun]
      simp only
      rw [if_neg hne]
      generalize x.polled r base n = y at *
      rw [hstatus]
      by_cases hdrq : isDrq (r.status (x.statusReads + n)) = true
      · right
        rw [if_neg (by simp [hdrq])]
        refine ⟨hlt, x.statusReads + n, (y.readStatus r base).readByteCount r base, hpass, hdrq,
          congrArg (· + 1) hstatus, congrArg (· + 1) hcounts, hstores, hlog, ?_⟩
        rw [hcounts]
      · left
        rw [if_pos (by simpa using hdrq)]
        refine ⟨hlt, ⟨some transferred, y.readStatus r base, by simp; omega, hstores, hlog, rfl⟩, ?_⟩
        intro phases hserved
        cases hserved with
        | done hdone => omega
        | phase _ hwait hdrq' _ =>
          rw [hpass.unique hwait] at hdrq'
          exact hdrq hdrq'
    · left
      have hnot : ∀ i', ¬ Passes dataVerdict r.status x.statusReads i' := fun i' h => hwait ⟨i', h⟩
      obtain ⟨n, hfailed⟩ := @poll_failed r base dataVerdict x hnot
      refine ⟨hlt, ⟨none, x.polled r base n, by simp, polled_stores n x, packets_polled n x, ?_⟩, ?_⟩
      · rcases hfailed with hrun | hrun
        · rw [hrun]
        · rw [hrun]
          rfl
      · intro phases hserved
        cases hserved with
        | done hdone => omega
        | phase _ hpass _ _ => exact hnot _ hpass
  · exact .inl ⟨Nat.le_of_not_lt hlt, if_neg hlt⟩

theorem transferLoop_spec {wanted : Nat} : ∀ {rounds transferred : Nat} {x : Exchange},
    wanted - transferred < rounds → transferred ≤ wanted →
      ∃ res x', transferLoop r base wanted rounds transferred x = some (res, x') ∧
        (PacketsAfterDrq base x'.log ↔ PacketsAfterDrq base x.log) ∧
        (∃ new, x'.stores = new ++ x.stores ∧
          ∀ s ∈ new, transferred ≤ s.offset ∧ s.offset + 2 ≤ wanted) ∧
        (res = some wanted →
          ∃ phases, Served r wanted x.statusReads transferred x.countReads phases) := by
  intro rounds
  induction rounds with
  | zero => intro transferred x h; omega
  | succ rounds ih =>
    intro transferred x hrounds hle
    rcases @transferLoop_cases r base wanted rounds transferred x with ⟨hge, hrun⟩ |
      ⟨hlt, ⟨res, x', hne, hstores, hpackets, hrun⟩, -⟩ |
      ⟨hlt, i', x', hpass, hdrq, hstatus, hcounts, hstores, hpackets, hrun⟩
    · refine ⟨_, _, hrun, Iff.rfl, ⟨[], rfl, by simp⟩, fun hres => ⟨[], .done ?_⟩⟩
      exact Option.some.inj hres
    · exact ⟨res, x', hrun, hpackets, ⟨[], hstores, by simp⟩, fun hres => absurd hres hne⟩
    · have hphase := @phaseLength_le r wanted transferred x.countReads
      have hpos := @phaseLength_pos r _ _ hlt x.countReads
      generalize hlength : phaseLength r wanted transferred x.countReads = length at hphase hpos hrun
      obtain ⟨hstatus', hcounts', hpackets', new, hnew, hinside, -⟩ :=
        @storePhase_spec r base (length / 2) transferred x'
      generalize storePhase r base (length / 2) transferred x' = x'' at *
      obtain ⟨res, x3, hrun', hpackets3, ⟨new', hnew', hinside'⟩, hserved⟩ :=
        @ih (transferred + length) x'' (by omega) (by omega)
      refine ⟨res, x3, hrun.trans hrun', hpackets3.trans (hpackets'.trans hpackets),
        ⟨new' ++ new, ?_, ?_⟩, fun hres => ?_⟩
      · rw [hnew', hnew, hstores, append_assoc]
      · intro s hs
        rcases mem_append.mp hs with hs | hs
        · have := hinside' s hs
          omega
        · have := hinside s hs
          omega
      · obtain ⟨phases, hphases⟩ := hserved hres
        rw [hstatus', hstatus, hcounts', hcounts, ← hlength] at hphases
        exact ⟨_, .phase hlt hpass hdrq hphases⟩

theorem transferLoop_served {wanted i transferred counts : Nat} {phases : List Nat}
    (h : Served r wanted i transferred counts phases) :
    ∀ {rounds : Nat} {x : Exchange}, wanted - transferred < rounds → transferred ≤ wanted →
      x.statusReads = i → x.countReads = counts →
        ∃ x' new, transferLoop r base wanted rounds transferred x = some (some wanted, x') ∧
          x'.stores = new ++ x.stores ∧ (∀ s ∈ new, transferred ≤ s.offset) ∧
            ((∀ p, transferred ≤ p → p < wanted → Covered r new p) ↔
              ∀ phase ∈ phases, phase % 2 = 0) := by
  induction h with
  | @done i transferred counts hdone =>
    rintro rounds x hrounds hle rfl rfl
    cases rounds with
    | zero => omega
    | succ rounds =>
      subst hdone
      refine ⟨x, [], ?_, rfl, by simp, ?_⟩
      · rw [transferLoop, if_neg (Nat.lt_irrefl _)]
      · exact iff_of_true (fun p h1 h2 => by omega) (by simp)
  | @phase i i' transferred counts phases hlt hwait hdrq hrest ih =>
    rintro rounds x hrounds hle rfl rfl
    cases rounds with
    | zero => omega
    | succ rounds =>
      rcases @transferLoop_cases r base wanted rounds transferred x with ⟨hge, -⟩ |
        ⟨-, -, hnot⟩ | ⟨-, j, x', hpass, -, hstatus, hcounts, hstores, -, hrun⟩
      · omega
      · exact absurd (Served.phase hlt hwait hdrq hrest) (hnot _)
      · obtain rfl := hwait.unique hpass
        have hphase := @phaseLength_le r wanted transferred x.countReads
        have hpos := @phaseLength_pos r _ _ hlt x.countReads
        generalize phaseLength r wanted transferred x.countReads = length at hphase hpos hrun ih ⊢
        obtain ⟨hstatus', hcounts', -, new, hnew, hinside, hcovered⟩ :=
          @storePhase_spec r base (length / 2) transferred x'
        generalize storePhase r base (length / 2) transferred x' = x'' at *
        obtain ⟨x3, new', hrun', hnew', hbehind, hiff⟩ := @ih rounds x'' (by omega) (by omega)
          (hstatus'.trans hstatus) (hcounts'.trans hcounts)
        refine ⟨x3, new' ++ new, hrun.trans hrun', ?_, ?_, ?_⟩
        · rw [hnew', hnew, hstores, append_assoc]
        · intro s hs
          rcases mem_append.mp hs with hs | hs
          · have := hbehind s hs
            omega
          · exact (hinside s hs).1
        · rw [forall_mem_cons, ← hiff]
          constructor
          · intro hall
            constructor
            · -- The last byte of an odd phase is in no store.
              by_contra hodd
              obtain ⟨s, hs, hlow, hhigh, -⟩ := hall (transferred + length - 1) (by omega) (by omega)
              rcases mem_append.mp hs with hs | hs
              · have := hbehind s hs
                omega
              · have := hinside s hs
                omega
            · intro p hp hlt'
              obtain ⟨s, hs, hlow, hhigh, hword⟩ := hall p (by omega) hlt'
              rcases mem_append.mp hs with hs | hs
              · exact ⟨s, hs, hlow, hhigh, hword⟩
              · have := hinside s hs
                omega
          · rintro ⟨heven, hall⟩ p hp hlt'
            by_cases hfirst : p < transferred + length
            · exact (hcovered p hp (by omega)).append_right
            · exact (hall p (by omega) hlt').append_left

end Phase

/-! ## The function -/

section Function

variable {r : Registers} {base : Nat}

theorem sound_idle {sectors : UInt8} {x : Exchange} (hpackets : PacketsAfterDrq base x.log)
    (hstores : x.stores = []) : Sound r base sectors (some (false, x)) :=
  .intro false x hpackets (by simp [hstores]) fun h => by cases h

theorem readPacket_sound_iff (lba : UInt32) (sectors : UInt8) {x : Exchange}
    (hpackets : PacketsAfterDrq base x.log) (hstores : x.stores = []) (hcounts : x.countReads = 0) :
    Sound r base sectors (readPacket r base lba sectors x) ↔
      drqSeen base x.log = true ∧
        ∀ phases, Served r (wantedBytes sectors) x.statusReads 0 0 phases →
          ∀ phase ∈ phases, phase % 2 = 0 := by
  obtain ⟨hs, hr, hc⟩ := @foldl_outw base (words (packet lba sectors)) (x.inb (base + 2) r.reason)
  have hpacket := @packets_sendPacket r base lba sectors x
  rw [← sendPacket] at hs hr hc
  have hstart : (sendPacket r base lba sectors x).statusReads = x.statusReads := hr
  have hcount : (sendPacket r base lba sectors x).countReads = 0 := hc.trans hcounts
  have hstore : (sendPacket r base lba sectors x).stores = [] := hs.trans hstores
  unfold readPacket
  generalize sendPacket r base lba sectors x = y at *
  obtain ⟨res, x', hrun, hlog, ⟨new, hnew, hinside⟩, hserved⟩ :=
    @transferLoop_spec r base (wantedBytes sectors) (wantedBytes sectors + 1) 0 y (by omega)
      (Nat.zero_le _)
  rw [hstore, append_nil] at hnew
  rw [hstart, hcount] at hserved
  rw [hrun]
  constructor
  · rintro ⟨ok, z, hpackets', hinside', hall⟩
    refine ⟨(hpacket.mp (hlog.mp hpackets')).2, fun phases hphases => ?_⟩
    obtain ⟨x'', new', hrun', hnew', -, hiff⟩ := @transferLoop_served r base _ _ _ _ _ hphases
      (wantedBytes sectors + 1) y (by omega) (Nat.zero_le _) hstart hcount
    rw [hrun] at hrun'
    obtain ⟨rfl, rfl⟩ := Prod.mk.inj (Option.some.inj hrun')
    rw [hstore, append_nil] at hnew'
    rw [hnew'] at hall
    exact hiff.mp fun p _ hlt => hall (by simp) p hlt
  · rintro ⟨hseen, heven⟩
    refine .intro _ x' (hlog.mpr (hpacket.mpr ⟨hpackets, hseen⟩)) ?_ fun hok p hlt => ?_
    · intro s hs
      rw [hnew] at hs
      exact (hinside s hs).2
    · obtain ⟨phases, hphases⟩ := hserved (of_decide_eq_true hok)
      obtain ⟨x'', new', hrun', hnew', -, hiff⟩ := @transferLoop_served r base _ _ _ _ _ hphases
        (wantedBytes sectors + 1) y (by omega) (Nat.zero_le _) hstart hcount
      rw [hrun] at hrun'
      obtain ⟨-, rfl⟩ := Prod.mk.inj (Option.some.inj hrun')
      rw [hstore, append_nil] at hnew'
      rw [hnew']
      exact hiff.mpr (heven phases hphases) p (Nat.zero_le p) hlt

theorem drqVerdict_leave {status : UInt8} (h : drqVerdict status = .leave) : isDrq status = true := by
  unfold drqVerdict at h
  split_ifs at h with herror hdrq
  exact hdrq

theorem drqVerdict_again {status : UInt8} (h : drqVerdict status = .again) : isDrq status = false := by
  unfold drqVerdict at h
  split_ifs at h with herror hdrq
  simpa using hdrq

theorem drqSeen_command {n : Nat} {x : Exchange} (hcommand : drqSeen base x.log = false)
    (hpass : Passes drqVerdict r.status x.statusReads (x.statusReads + n)) :
    drqSeen base (x.polled r base n).log = true ↔
      ∃ m < 100000, drqVerdict (r.status (x.statusReads + m)) ≠ .again := by
  rw [drqSeen_polled, hcommand]
  rcases hpass with ⟨k, hk, hstops, hleave, hn⟩ | ⟨hagain, hn⟩
  · refine iff_of_true (.inr ⟨k, by omega, drqVerdict_leave hleave⟩) ⟨k, by omega, hstops.1⟩
  · refine iff_of_false ?_ ?_
    · rintro (hfalse | ⟨m, hm, hdrq⟩)
      · cases hfalse
      · rw [drqVerdict_again (hagain m (by omega))] at hdrq
        cases hdrq
    · rintro ⟨m, hm, hne⟩
      exact hne (hagain m hm)

variable {slave : Bool} {lba : UInt32} {sectors : UInt8}

theorem sound_unready (hready : ∀ i, ¬ Passes readyVerdict r.status 0 i) :
    Sound r base sectors (atapiReadSectorsInternal r base slave lba sectors) := by
  unfold atapiReadSectorsInternal
  obtain ⟨n, hfailed⟩ := @poll_failed r base readyVerdict (selectDrive base slave) hready
  have hpackets := (@packets_polled r base n (selectDrive base slave)).mpr trivial
  have hstores := @polled_stores r base n (selectDrive base slave)
  rcases hfailed with hrun | hrun
  · rw [hrun]
    exact sound_idle hpackets hstores
  · rw [hrun]
    exact sound_idle hpackets hstores

theorem read_ready {i : Nat} (hready : Passes readyVerdict r.status 0 i) :
    ∃ x, PacketsAfterDrq base x.log ∧ x.stores = [] ∧ x.countReads = 0 ∧ x.statusReads = i ∧
      drqSeen base x.log = false ∧
      atapiReadSectorsInternal r base slave lba sectors = readCommand r base lba sectors x := by
  unfold atapiReadSectorsInternal
  obtain ⟨n, timeout, hi, hne, hrun⟩ :=
    @poll_passed r base readyVerdict (selectDrive base slave) i hready
  have hstatus := @polled_statusReads r base n (selectDrive base slave)
  have hcounts := @polled_countReads r base n (selectDrive base slave)
  have hstores := @polled_stores r base n (selectDrive base slave)
  have hlog := (@packets_polled r base n (selectDrive base slave)).mpr trivial
  rw [hrun]
  generalize (selectDrive base slave).polled r base n = y at *
  refine ⟨sendCommand base y, hlog, hstores, hcounts, hstatus.trans hi.symm,
    drqSeen_sendCommand y, ?_⟩
  simp only
  rw [if_neg hne]

theorem sound_unanswered {i : Nat} (hready : Passes readyVerdict r.status 0 i)
    (hdrq : ∀ i', ¬ Passes drqVerdict r.status i i') :
    Sound r base sectors (atapiReadSectorsInternal r base slave lba sectors) := by
  obtain ⟨x, hpackets, hstores, -, rfl, -, hread⟩ := @read_ready r base slave lba sectors i hready
  obtain ⟨n, hfailed⟩ := @poll_failed r base drqVerdict x hdrq
  have hlog := (@packets_polled r base n x).mpr hpackets
  have hempty := (@polled_stores r base n x).trans hstores
  rw [hread, readCommand]
  rcases hfailed with hrun | hrun
  · rw [hrun]
    exact sound_idle ((packets_reportError _).mpr hlog) hempty
  · rw [hrun]
    exact sound_idle hlog hempty

theorem sound_answered {i i' : Nat} (hready : Passes readyVerdict r.status 0 i)
    (hdrq : Passes drqVerdict r.status i i') :
    Sound r base sectors (atapiReadSectorsInternal r base slave lba sectors) ↔
      (∃ m < 100000, drqVerdict (r.status (i + m)) ≠ .again) ∧
        ∀ phases, Served r (wantedBytes sectors) i' 0 0 phases → ∀ phase ∈ phases, phase % 2 = 0 := by
  obtain ⟨x, hpackets, hstores, hcounts, rfl, hcommand, hread⟩ :=
    @read_ready r base slave lba sectors i hready
  obtain ⟨n, timeout, rfl, hne, hrun⟩ := @poll_passed r base drqVerdict x i' hdrq
  have hseen := @drqSeen_command r base n x hcommand hdrq
  have hstatus := @polled_statusReads r base n x
  have hlog := (@packets_polled r base n x).mpr hpackets
  have hempty := (@polled_stores r base n x).trans hstores
  have hzero := (@polled_countReads r base n x).trans hcounts
  rw [hread, readCommand, hrun]
  simp only
  rw [if_neg hne, readPacket_sound_iff lba sectors hlog hempty hzero, hseen, hstatus]

end Function

/-- A read is sound exactly for a drive that answers the command in time and does not end a
transfer with a phase of an odd length in it. -/
theorem atapi_read_sound_iff (r : Registers) (base : Nat) (slave : Bool) (lba : UInt32)
    (sectors : UInt8) :
    Sound r base sectors (atapiReadSectorsInternal r base slave lba sectors) ↔
      Answers r ∧ EvenPhases r sectors := by
  by_cases hready : ∃ i, Passes readyVerdict r.status 0 i
  · obtain ⟨i, hready⟩ := hready
    by_cases hdrq : ∃ i', Passes drqVerdict r.status i i'
    · obtain ⟨i', hdrq⟩ := hdrq
      rw [sound_answered hready hdrq]
      constructor
      · rintro ⟨hanswer, heven⟩
        refine ⟨fun j hj => ?_, fun j j' phases hj hj' => ?_⟩
        · obtain rfl := hready.unique hj
          exact hanswer
        · obtain rfl := hready.unique hj
          obtain rfl := hdrq.unique hj'
          exact heven phases
      · rintro ⟨hanswers, heven⟩
        exact ⟨hanswers i hready, fun phases => heven i i' phases hready hdrq⟩
    · refine iff_of_true (sound_unanswered hready fun i' h => hdrq ⟨i', h⟩) ⟨fun j hj => ?_, ?_⟩
      · obtain rfl := hready.unique hj
        by_contra hsilent
        refine hdrq ⟨_, .inr ⟨fun m hm => ?_, rfl⟩⟩
        by_contra hne
        exact hsilent ⟨m, hm, hne⟩
      · intro j j' phases hj hj'
        obtain rfl := hready.unique hj
        exact absurd ⟨j', hj'⟩ hdrq
  · refine iff_of_true (sound_unready fun i h => hready ⟨i, h⟩) ⟨fun i h => ?_, ?_⟩
    · exact absurd ⟨i, h⟩ hready
    · exact fun i _ _ h => absurd ⟨i, h⟩ hready

def busyDrive : Registers := ⟨fun _ => 0x80, 0, 0, fun _ => 0, fun _ => 0, fun _ => 0⟩

theorem busyDrive_unsound :
    ¬ Sound busyDrive 0x1F0 1 (atapiReadSectorsInternal busyDrive 0x1F0 false 16 1) := by
  have hready : readyVerdict 0x80 = .again := by decide
  have hdrq : drqVerdict 0x80 = .again := by decide
  rw [sound_answered (.inr ⟨fun _ _ => hready, rfl⟩) (.inr ⟨fun _ _ => hdrq, rfl⟩)]
  rintro ⟨⟨m, -, hne⟩, -⟩
  exact hne hdrq

end DiscouNT.Cdfs
