import DiscouNT.Csrss.SessionRuns

/-!
# Csrss.Launch

The requests that `csrss_execute_image` leaves for the session loop.
-/

namespace DiscouNT.Csrss

open List Option

def Request.Short (r : Request) : Prop :=
  (splitCommand r.text.length r.text).1.length ≤ 255 ∧
    (splitCommand r.text.length r.text).2.length ≤ 255

section Split

variable {r : Request} {text : Name} {max : Nat}

theorem length_splitCommand (max : Nat) (text : Name) : (splitCommand max text).1.length ≤ max :=
  length_take_le ..

theorem splitCommand_of_le (hle : (splitCommand text.length text).1.length ≤ max) :
    splitCommand max text = splitCommand text.length text := by
  unfold splitCommand at hle ⊢
  simp only at hle ⊢
  generalize hrest : (if (text.dropWhile isBlank).head?.filter isQuote |>.isSome then
    (text.dropWhile isBlank).tail else text.dropWhile isBlank) = rest at hle ⊢
  have hlength : rest.length ≤ text.length := by
    have hblank := (dropWhile_sublist isBlank (l := text)).length_le
    rw [← hrest]
    split
    · exact (tail_sublist _).length_le.trans hblank
    · exact hblank
  have hwhole := (takeWhile_sublist (inPath
    ((text.dropWhile isBlank).head?.filter isQuote)) (l := rest)).length_le
  rw [take_of_length_le (hwhole.trans hlength)] at hle ⊢
  rw [take_of_length_le hle]

theorem Request.exact_iff_short :
    (r.path, boundedCopy r.args 256) = r.asked ↔ r.Short := by
  have hpath : r.path = (splitCommand 255 r.text).1.map upper := by
    rw [Request.path, uppercaseCopy, take_of_length_le (length_splitCommand 255 r.text)]
  constructor
  · intro heq
    obtain ⟨hfst, hsnd⟩ := Prod.mk.inj heq
    have hshort : (splitCommand r.text.length r.text).1.length ≤ 255 := by
      have hlength := congrArg List.length (hpath.symm.trans hfst)
      rw [length_map, length_map] at hlength
      rw [← hlength]
      exact length_splitCommand 255 r.text
    refine ⟨hshort, ?_⟩
    rw [← hsnd]
    exact length_take_le ..
  · rintro ⟨hfst, hsnd⟩
    have hsame := splitCommand_of_le hfst
    rw [hpath, boundedCopy, Request.args, hsame, take_of_length_le hsnd]
    rfl

end Split

def leaves : Act → Session → Option Request
  | .executeImage path, s => if path = [] ∨ s.appCount < maxGuiApps then none else some ⟨path⟩
  | .load k found loaded, s => if found && loaded then none else (s.spawns k).bind (·.request)
  | .resolve k ok, s => if ok then none else (s.spawns k).bind (·.request)
  | .choose k .invalid, s => (s.spawns k).bind (·.request)
  | .choose k (.standard kind hasContext hasThread), s =>
    if kind = .custom ∨ hasContext && hasThread then none else (s.spawns k).bind (·.request)
  | .init k ok, s => if ok then none else (s.spawns k).bind (·.request)
  | .createWindow k hwnd, s => if hwnd = invalidHandle then (s.spawns k).bind (·.request) else none
  | _, _ => none

def taken (n : Nat) (log : List Event) : List (Name × Name) :=
  log.filterMap fun
    | .took m path commandLine => if m = n then some (path, commandLine) else none
    | _ => none

structure Quiet (s s' : Session) : Prop where
  pendingLaunch : s'.pendingLaunch = s.pendingLaunch
  pendingPath : s'.pendingPath = s.pendingPath
  pendingCommandLine : s'.pendingCommandLine = s.pendingCommandLine
  pendingRequest : s'.pendingRequest = s.pendingRequest
  requests : s'.requests = s.requests
  queued : ∀ n r, Event.queued n r ∈ s'.log ↔ Event.queued n r ∈ s.log
  taken : ∀ n, taken n s'.log = taken n s.log

/-- What a step did, when it left that request in the slot or none. -/
def Left (s s' : Session) : Option Request → Prop
  | none => Quiet s s'
  | some r => ∃ t, Quiet s t ∧ s' = queueRequest r t

section Quiet

variable {s s' s'' : Session} {k app i : Nat} {sp : Spawn} {t : GuiAppThread}
  {f : GuiAppInstance → GuiAppInstance} {a : Act} {r : Option Request}

theorem Quiet.refl (s : Session) : Quiet s s :=
  ⟨rfl, rfl, rfl, rfl, rfl, fun _ _ => .rfl, fun _ => rfl⟩

theorem Quiet.other (hq : Quiet s s') {apps : Nat → GuiAppInstance} {appCount nextPid launches : Nat}
    {spawns : Nat → Option Spawn} {threads : Nat → Option GuiAppThread} :
    Quiet s { s' with apps, appCount, nextPid, launches, spawns, threads } :=
  ⟨hq.pendingLaunch, hq.pendingPath, hq.pendingCommandLine, hq.pendingRequest, hq.requests,
    hq.queued, hq.taken⟩

theorem Quiet.access (hq : Quiet s s') (k app : Nat) : Quiet s (s'.access k app) :=
  ⟨hq.pendingLaunch, hq.pendingPath, hq.pendingCommandLine, hq.pendingRequest, hq.requests,
    fun n r => by simpa [Session.access, Session.note] using hq.queued n r, hq.taken⟩

theorem Quiet.accessOf (hq : Quiet s s') (owner : Option Nat) (i : Nat) :
    Quiet s (accessOf owner i s') := by
  cases owner with
  | none => exact hq
  | some k => exact hq.access k i

theorem quiet_proceed (k : Nat) (sp : Spawn) (phase : Phase) (f : GuiAppInstance → GuiAppInstance)
    (s : Session) : Quiet s (proceed k sp phase f s) :=
  ((Quiet.refl s).access k sp.app).other

theorem Quiet.left (hq : Quiet s s') (r : Option Request) : Left s (spawnFailed r s') r := by
  cases r with
  | none => exact hq
  | some r => exact ⟨s', hq, rfl⟩

theorem left_abandon (k : Nat) (sp : Spawn) (f : GuiAppInstance → GuiAppInstance) (s : Session) :
    Left s (abandon k sp f s) sp.request :=
  ((Quiet.refl s).access k sp.app).other.left sp.request

theorem quiet_retireApp (i : Nat) (gone : Bool) (s : Session) : Quiet s (retireApp i gone s) := by
  unfold retireApp
  split
  · exact (((Quiet.refl s).accessOf _ i).accessOf _ i).other
  · exact .refl s

theorem left_csrssSpawnGuiInstance (path commandLine : Name) (r : Option Request) (s : Session) :
    Left s (csrssSpawnGuiInstance path commandLine r s)
      (if s.appCount < maxGuiApps then none else r) := by
  unfold csrssSpawnGuiInstance
  by_cases hroom : s.appCount < maxGuiApps
  · rw [if_neg (Nat.not_le.mpr hroom), if_pos hroom]
    exact (Quiet.refl s).other
  · rw [if_pos (Nat.le_of_not_lt hroom), if_neg hroom]
    exact (Quiet.refl s).left r

theorem left_step (ha : a ≠ .takePending) (hstep : step a s = some s') :
    Left s s' (leaves a s) := by
  cases a with
  | spawn path commandLine =>
    cases hstep
    have hleft := left_csrssSpawnGuiInstance path commandLine none s
    rwa [ite_self] at hleft
  | executeImage path =>
    cases hstep
    simp only [leaves, csrssExecuteImage]
    by_cases hnil : path = []
    · rw [if_pos hnil, if_pos (.inl hnil)]
      exact .refl s
    · rw [if_neg hnil]
      have hleft := left_csrssSpawnGuiInstance (Request.path ⟨path⟩) (Request.args ⟨path⟩)
        (some ⟨path⟩) s
      simp only [hnil, false_or]
      exact hleft
  | load k found loaded =>
    obtain ⟨sp, hsp, -, rfl⟩ := inPhase_eq hstep
    simp only [leaves, loadImage, hsp, bind_some]
    cases found with
    | false => exact (Quiet.refl s).other.left sp.request
    | true =>
      cases loaded with
      | false => exact left_abandon k sp dropImage s
      | true => exact quiet_proceed k sp .resolve _ s
  | resolve k ok =>
    obtain ⟨sp, hsp, -, rfl⟩ := inPhase_eq hstep
    simp only [leaves, hsp, bind_some]
    cases ok with
    | false => exact left_abandon k sp dropImage s
    | true => exact quiet_proceed k sp .choose id s
  | choose k c =>
    obtain ⟨sp, hsp, -, rfl⟩ := inPhase_eq hstep
    cases c with
    | invalid =>
      simp only [leaves, hsp, bind_some]
      exact left_abandon k sp dropImage s
    | custom => exact quiet_proceed k sp .init id s
    | standard kind hasContext hasThread =>
      simp only [leaves, chooseKind, hsp, bind_some]
      by_cases hkind : kind = .custom
      · rw [if_pos hkind, if_pos (.inl hkind)]
        exact .refl s
      · rw [if_neg hkind]
        cases hasContext with
        | false => simpa [hkind] using left_abandon k sp dropImage s
        | true =>
          cases hasThread with
          | false => simpa [hkind] using left_abandon k sp _ s
          | true =>
            simp only [hkind, false_or, Bool.and_self, if_true, Bool.not_true, Bool.false_eq_true,
              if_false]
            exact (quiet_proceed k sp (.findWindow 0) _ s).other
  | init k ok =>
    obtain ⟨sp, hsp, -, rfl⟩ := inPhase_eq hstep
    simp only [leaves, hsp, bind_some]
    cases ok with
    | false => exact left_abandon k sp dropImage s
    | true => exact quiet_proceed k sp .createWindow id s
  | createWindow k hwnd =>
    obtain ⟨sp, hsp, -, rfl⟩ := inPhase_eq hstep
    simp only [leaves, hsp, bind_some]
    split
    · exact left_abandon k sp _ s
    · exact quiet_proceed k sp .finish _ s
  | findWindow k hwnd =>
    obtain ⟨sp, hsp, heq⟩ := bind_eq_some_iff.mp hstep
    split at heq
    · cases heq
      unfold findMainWindow
      split
      · split
        · exact quiet_proceed k sp .finish _ s
        · exact quiet_proceed k sp _ _ s
      · exact quiet_proceed k sp .finish id s
    · cases heq
  | finish k =>
    obtain ⟨sp, hsp, -, rfl⟩ := inPhase_eq hstep
    exact ((Quiet.refl s).access k sp.app).other
  | threadStart k hasStack =>
    obtain ⟨t, ht, -, rfl⟩ := inState_eq hstep
    unfold threadStart
    cases hasStack with
    | true => exact ((Quiet.refl s).access k t.app).other
    | false => exact ((Quiet.refl s).access k t.app).other
  | threadReturn k code =>
    obtain ⟨t, ht, -, rfl⟩ := inState_eq hstep
    exact ((Quiet.refl s).access k t.app).other
  | terminate k =>
    obtain ⟨t, ht, rfl⟩ := map_eq_some_iff.mp hstep
    exact (Quiet.refl s).other
  | retire i gone =>
    cases hstep
    exact quiet_retireApp i gone s
  | takePending => exact absurd rfl ha

end Quiet

/-! ## What becomes of requests -/

def Kept (s : Session) : Prop :=
  ∀ n r, Event.queued n r ∈ s.log →
    (s.pendingLaunch = true ∧ s.pendingRequest = n ∧
      (s.pendingPath, s.pendingCommandLine) = r.asked ∧ taken n s.log = []) ∨
    (¬ (s.pendingLaunch = true ∧ s.pendingRequest = n) ∧ taken n s.log = [r.asked])

/-- A request that the step leaves finds the slot empty, and fits into it. -/
def Fits (a : Act) (s : Session) : Prop :=
  ∀ r, leaves a s = some r → s.pendingLaunch = false ∧ r.Short

def Always (P : Session → Prop) : List Act → Session → Prop
  | [], s => P s
  | a :: acts, s => P s ∧
    match step a s with
    | none => True
    | some s' => Always P acts s'

structure Slot (s : Session) : Prop where
  queued : ∀ n r, Event.queued n r ∈ s.log → n < s.requests
  taken : ∀ n, taken n s.log ≠ [] → n < s.requests
  pending : s.pendingLaunch = true →
    ∃ r, Event.queued s.pendingRequest r ∈ s.log ∧ Csrss.taken s.pendingRequest s.log = []

section Slot

variable {s s' : Session} {a : Act} {acts : List Act} {r : Request} {n m : Nat}
  {path commandLine : Name} {log : List Event}

@[simp]
theorem taken_queued : taken n (.queued m r :: log) = taken n log := rfl

@[simp]
theorem taken_took_self :
    taken n (.took n path commandLine :: log) = (path, commandLine) :: taken n log := by
  simp [taken]

theorem taken_took_of_ne (hne : m ≠ n) :
    taken n (.took m path commandLine :: log) = taken n log := by
  simp [taken, hne]

theorem slot_start : Slot start := by
  constructor
  · intro n r hmem
    cases hmem
  · intro n htaken
    exact absurd rfl htaken
  · intro hpending
    cases hpending

theorem kept_start : Kept start := by
  intro n r hmem
  cases hmem

theorem Slot.quiet (hslot : Slot s) (hq : Quiet s s') : Slot s' := by
  constructor
  · intro n r hmem
    rw [hq.requests]
    exact hslot.queued n r ((hq.queued n r).mp hmem)
  · intro n htaken
    rw [hq.taken] at htaken
    rw [hq.requests]
    exact hslot.taken n htaken
  · intro hpending
    rw [hq.pendingLaunch] at hpending
    obtain ⟨r, hmem, htaken⟩ := hslot.pending hpending
    refine ⟨r, ?_, ?_⟩
    · rw [hq.pendingRequest]
      exact (hq.queued _ r).mpr hmem
    · rw [hq.pendingRequest, hq.taken]
      exact htaken

theorem Slot.taken_requests (hslot : Slot s) : Csrss.taken s.requests s.log = [] := by
  by_contra htaken
  exact Nat.lt_irrefl _ (hslot.taken _ htaken)

theorem Slot.queueRequest (hslot : Slot s) (r : Request) : Slot (queueRequest r s) := by
  constructor
  · intro n q hmem
    rcases mem_cons.mp hmem with heq | hmem
    · cases heq
      exact Nat.lt_succ_self _
    · exact (hslot.queued n q hmem).trans (Nat.lt_succ_self _)
  · intro n htaken
    exact (hslot.taken n htaken).trans (Nat.lt_succ_self _)
  · intro _
    exact ⟨r, mem_cons_self, hslot.taken_requests⟩

theorem Slot.takePendingLaunch (hslot : Slot s) : Slot (takePendingLaunch s) := by
  unfold Csrss.takePendingLaunch
  split
  case isFalse => exact hslot
  case isTrue hpending =>
    obtain ⟨r, hqueued, -⟩ := hslot.pending hpending
    constructor
    · intro n q hmem
      rcases mem_cons.mp hmem with heq | hmem
      · cases heq
      · exact hslot.queued n q hmem
    · intro n htaken
      by_cases hn : s.pendingRequest = n
      · exact hn ▸ hslot.queued _ r hqueued
      · exact hslot.taken n (taken_took_of_ne hn ▸ htaken)
    · intro hfalse
      cases hfalse

theorem Slot.left (hslot : Slot s) {q : Option Request} (hleft : Left s s' q) : Slot s' := by
  cases q with
  | none => exact hslot.quiet hleft
  | some r =>
    obtain ⟨t, hq, rfl⟩ := hleft
    exact (hslot.quiet hq).queueRequest r

theorem Slot.step (hslot : Slot s) (hstep : step a s = some s') : Slot s' := by
  by_cases ha : a = .takePending
  · subst ha
    cases hstep
    exact hslot.takePendingLaunch
  · exact hslot.left (left_step ha hstep)

theorem Kept.quiet (hkept : Kept s) (hq : Quiet s s') : Kept s' := by
  intro n r hmem
  rw [hq.pendingLaunch, hq.pendingRequest, hq.pendingPath, hq.pendingCommandLine, hq.taken]
  exact hkept n r ((hq.queued n r).mp hmem)

theorem kept_queueRequest (hslot : Slot s) (hkept : Kept s) :
    Kept (queueRequest r s) ↔ s.pendingLaunch = false ∧ r.Short := by
  constructor
  · intro hafter
    refine ⟨?_, ?_⟩
    · by_contra hpending
      obtain ⟨q, hqueued, htaken⟩ := hslot.pending (by simpa using hpending)
      have hlt := hslot.queued _ q hqueued
      rcases hafter _ q (mem_cons_of_mem _ hqueued) with ⟨-, heq, -⟩ | ⟨-, heq⟩
      · exact absurd heq.symm (Nat.ne_of_lt hlt)
      · rw [queueRequest, taken_queued, htaken] at heq
        cases heq
    · rcases hafter s.requests r mem_cons_self with ⟨-, -, heq, -⟩ | ⟨hnot, -⟩
      · exact Request.exact_iff_short.mp heq
      · exact absurd ⟨rfl, rfl⟩ hnot
  · rintro ⟨hempty, hshort⟩ n q hmem
    rcases mem_cons.mp hmem with heq | hmem
    · cases heq
      exact .inl ⟨rfl, rfl, Request.exact_iff_short.mpr hshort, hslot.taken_requests⟩
    · right
      have hlt := hslot.queued n q hmem
      refine ⟨fun hn => absurd hn.2.symm (Nat.ne_of_lt hlt), ?_⟩
      rcases hkept n q hmem with ⟨hpending, -⟩ | ⟨-, htaken⟩
      · rw [hempty] at hpending
        cases hpending
      · exact htaken

theorem Kept.takePendingLaunch (hkept : Kept s) : Kept (takePendingLaunch s) := by
  unfold Csrss.takePendingLaunch
  split
  case isFalse => exact hkept
  case isTrue hpending =>
    intro n q hmem
    right
    refine ⟨fun hn => Bool.false_ne_true hn.1, ?_⟩
    rcases mem_cons.mp hmem with heq | hmem
    · cases heq
    rcases hkept n q hmem with ⟨-, rfl, hasked, htaken⟩ | ⟨hother, htaken⟩
    · exact taken_took_self.trans (by rw [htaken, hasked])
    · exact (taken_took_of_ne fun hn => hother ⟨hpending, hn⟩).trans htaken

theorem kept_step (hslot : Slot s) (hkept : Kept s) (hstep : step a s = some s') :
    Kept s' ↔ Fits a s := by
  by_cases ha : a = .takePending
  · subst ha
    cases hstep
    exact iff_of_true hkept.takePendingLaunch fun r hr => nomatch hr
  have hleft := left_step ha hstep
  unfold Fits
  cases hr : leaves a s with
  | none =>
    rw [hr] at hleft
    exact iff_of_true (hkept.quiet hleft) fun r hr => nomatch hr
  | some r =>
    rw [hr] at hleft
    obtain ⟨t, hq, rfl⟩ := hleft
    rw [kept_queueRequest (hslot.quiet hq) (hkept.quiet hq), hq.pendingLaunch]
    constructor
    · intro hboth r' heq
      cases heq
      exact hboth
    · intro hall
      exact hall r rfl

theorem always_kept (hslot : Slot s) (hkept : Kept s) :
    Always Kept acts s ↔ okActs Fits acts s := by
  induction acts generalizing s with
  | nil => exact iff_of_true hkept trivial
  | cons a acts ih =>
    rw [Always, okActs]
    cases hstep : step a s with
    | none => exact iff_of_true ⟨hkept, trivial⟩ trivial
    | some s' =>
      constructor
      · rintro ⟨-, hrest⟩
        have hkept' : Kept s' := by cases acts with
          | nil => exact hrest
          | cons => exact hrest.1
        exact ⟨(kept_step hslot hkept hstep).mp hkept', (ih (hslot.step hstep) hkept').mp hrest⟩
      · rintro ⟨hfits, hrest⟩
        have hkept' := (kept_step hslot hkept hstep).mpr hfits
        exact ⟨hkept, (ih (hslot.step hstep) hkept').mpr hrest⟩

end Slot

/-- No request is lost or changed in a run exactly if each that is left finds the slot empty and
fits into it. -/
theorem launches_kept (acts : List Act) : Always Kept acts start ↔ okActs Fits acts start :=
  always_kept slot_start kept_start

def missingActs : List Act :=
  [.executeImage [0x41], .load 0 false false, .executeImage [0x42], .load 1 false false]

/-- The second request took the place of the first one, which the session loop never saw. -/
theorem launch_overwritten : ∃ s, runActs missingActs start = some s ∧
    Event.queued 0 ⟨[0x41]⟩ ∈ s.log ∧ s.pendingRequest = 1 ∧ taken 0 s.log = [] ∧ ¬ Kept s := by
  have hmem : Event.queued 0 ⟨[0x41]⟩ ∈ [Event.queued 1 ⟨[0x42]⟩, .queued 0 ⟨[0x41]⟩] := by simp
  refine ⟨_, rfl, hmem, rfl, rfl, fun hkept => ?_⟩
  rcases hkept 0 ⟨[0x41]⟩ hmem with ⟨-, heq, -⟩ | ⟨-, heq⟩
  · cases heq
  · cases heq

end DiscouNT.Csrss
