-- The laws of the death links: what a proxy asked of the driver and took back belong
-- together in every order of calls, its weak references do while no obituary tells anybody,
-- and the links themselves are lost.
import SystemBinder.DeathLinks

open prog

namespace system_binder

namespace DeathState

variable {W : Type} {x : DeathWorld W} {s : DeathState W}

/-! ## The handshake with the driver -/

/-- The requests that were queued for the proxy. -/
def requests (s : DeathState W) : Nat :=
  s.queued.count (.BC_REQUEST_DEATH_NOTIFICATION s.binder_handle s.this)

/-- The clears that were queued for the proxy. -/
def clears (s : DeathState W) : Nat :=
  s.queued.count (.BC_CLEAR_DEATH_NOTIFICATION s.binder_handle s.this)

/-- Each request is cleared but the last one while there are links. For each request that is not
answered the proxy has a weak reference on itself. `weak` is the rest of its weak count. -/
structure Paired (weak : BitVec 32) (s : DeathState W) : Prop where
  pairs : s.requests = s.clears + if s.mObituaries = none then 0 else 1
  entries : s.mObituaries ≠ some []
  answers : s.answered ≤ s.clears
  count : s.refs.mWeak = weak + BitVec.ofNat 32 (s.requests - s.answered)

/-- Once the obituary was sent, it stays so, and nothing more is requested. -/
def NoMore (s s' : DeathState W) : Prop :=
  s.mObitsSent = true → s'.mObitsSent = true ∧ s'.requests = s.requests

variable {weak : BitVec 32}

theorem NoMore.refl (s : DeathState W) : NoMore s s := fun h => ⟨h, rfl⟩

/-! ## What the helpers do -/

section

variable {E : Fault → Prop}

@[simp] theorem wp_thisProxy {Q : DeathState W → DeathState W → Prop} :
    wp thisProxy Q E s ↔ Q s s := Iff.rfl

@[simp] theorem wp_update {Q : Unit → DeathState W → Prop} {f : DeathState W → DeathState W} :
    wp (update f) Q E s ↔ Q () (f s) := Iff.rfl

@[simp] theorem wp_write {Q : Unit → DeathState W → Prop} {cmd : OutCommand} :
    wp (write cmd) Q E s ↔
      Q () { s with mOut := s.mOut ++ [cmd], queued := s.queued ++ [cmd] } := Iff.rfl

end

/-- A call outside changes nothing of the proxy. -/
theorem outside.spec {α : Type} {m : Prog W Fault α} {Q : α → DeathState W → Prop}
    (h : ∀ a w, Q a { s with world := w }) : wp (outside m) Q anyFault s := by
  unfold outside
  rw [wp_zoom]
  exact wp_of_all (fun a w => h a w) (fun _ => trivial)

theorem flushCommands.spec {Q : Unit → DeathState W → Prop}
    (h : ∀ w, Q () { s with mOut := [], world := w }) :
    wp (flushCommands x) Q anyFault s := by
  unfold flushCommands
  rw [wp_bind, wp_update]
  exact outside.spec fun _ w => h w

theorem flushIfNeeded.spec {Q : Unit → DeathState W → Prop}
    (h : ∀ out w, Q () { s with mOut := out, world := w }) :
    wp (flushIfNeeded x) Q anyFault s := by
  unfold flushIfNeeded
  rw [wp_bind, wp_thisProxy, wp_ite]
  exact ⟨fun _ => h s.mOut s.world, fun _ => flushCommands.spec fun w => h [] w⟩

theorem incWeak.spec {Q : Unit → DeathState W → Prop}
    (h : Q () { s with refs := { s.refs with mWeak := s.refs.mWeak + 1 } }) :
    wp weakref.incWeak Q anyFault s := by
  unfold RefBase.incWeak
  rw [wp_bind]
  show wp (ite _ _ _) Q anyFault _
  rw [wp_ite]
  exact ⟨fun _ => trivial, fun _ => h⟩

theorem decWeak.spec {Q : Unit → DeathState W → Prop}
    (h : Q () { s with refs := { s.refs with mWeak := s.refs.mWeak - 1 } }) :
    wp weakref.decWeak Q anyFault s := by
  unfold RefBase.decWeak
  rw [wp_bind]
  show wp (ite _ _ _) Q anyFault _
  rw [wp_ite, wp_ite]
  refine ⟨fun _ => trivial, fun _ => ⟨fun _ => h, fun _ => ?_⟩⟩
  rw [wp_bind]
  show wp (ite _ _ _) Q anyFault _
  rw [wp_ite, wp_ite]
  exact ⟨fun _ => ⟨fun _ => h, fun _ => h⟩, fun _ => h⟩

theorem loadObituary.spec {Q : Obituary → DeathState W → Prop}
    (h : ∀ ob, s.dead.stale s.loads = some ob → Q ob { s with loads := s.loads + 1 }) :
    wp loadObituary Q anyFault s := by
  unfold loadObituary wp
  cases hfound : s.dead.stale s.loads with
  | none =>
    simp only [hfound]
    trivial
  | some ob =>
    simp only [hfound]
    exact h ob hfound

theorem freeObituary.spec {Q : Unit → DeathState W → Prop} (h : Q () s) :
    wp freeObituary Q anyFault s := by
  unfold freeObituary wp
  dsimp only
  cases hfree : s.dead.freeReturns s.loads with
  | true => exact h
  | false => trivial

/-! ## Commands counted -/

theorem count_write_same {queued : List OutCommand} {cmd : OutCommand} :
    (queued ++ [cmd]).count cmd = queued.count cmd + 1 := by
  rw [List.count_append, List.count_singleton_self]

theorem count_write_other {queued : List OutCommand} {cmd other : OutCommand} (h : other ≠ cmd) :
    (queued ++ [other]).count cmd = queued.count cmd := by
  have hnone : [other].count cmd = 0 := List.count_eq_zero_of_not_mem (by simpa using h.symm)
  rw [List.count_append, hnone]
  rfl

/-- Where only fields change that say nothing about links. -/
theorem Paired.same {s s' : DeathState W} (p : Paired weak s)
    (hqueued : s'.requests = s.requests ∧ s'.clears = s.clears)
    (hnone : s'.mObituaries = none ↔ s.mObituaries = none) (hentries : s'.mObituaries ≠ some [])
    (ha : s'.answered = s.answered) (hr : s'.refs = s.refs) : Paired weak s' := by
  obtain ⟨hreq, hclr⟩ := hqueued
  refine ⟨?_, hentries, by rw [ha, hclr]; exact p.answers, by rw [hr, hreq, ha]; exact p.count⟩
  rw [hreq, hclr, p.pairs]
  by_cases h : s.mObituaries = none
  · rw [if_pos h, if_pos (hnone.mpr h)]
  · rw [if_neg h, if_neg (fun h' => h (hnone.mp h'))]

/-- A clear is queued and the links are gone. -/
theorem Paired.cleared {s t : DeathState W} (p : Paired weak s) (hsome : s.mObituaries ≠ none)
    (hthis : t.this = s.this) (hhandle : t.binder_handle = s.binder_handle)
    (hqueued : t.queued =
      s.queued ++ [.BC_CLEAR_DEATH_NOTIFICATION s.binder_handle s.this])
    (ho : t.mObituaries = none) (ha : t.answered = s.answered) (hr : t.refs = s.refs) :
    Paired weak t ∧ t.requests = s.requests := by
  have hreq : t.requests = s.requests := by
    unfold requests
    rw [hqueued, hthis, hhandle, count_write_other (by simp)]
  have hclr : t.clears = s.clears + 1 := by
    unfold clears
    rw [hqueued, hthis, hhandle, count_write_same]
  refine ⟨⟨?_, by rw [ho]; simp, ?_, by rw [hr, hreq, ha]; exact p.count⟩, hreq⟩
  · rw [hreq, hclr, p.pairs, if_neg hsome, ho, if_pos rfl]
  · rw [ha, hclr]
    exact Nat.le_succ_of_le p.answers

/-- A request is queued, the proxy takes a weak reference, and there is a first link. -/
theorem Paired.requested {s s' : DeathState W} (p : Paired weak s) (hnone : s.mObituaries = none)
    (hthis : s'.this = s.this) (hhandle : s'.binder_handle = s.binder_handle)
    (hqueued : s'.queued =
      s.queued ++ [.BC_REQUEST_DEATH_NOTIFICATION s.binder_handle s.this])
    {n : Nat} (ho : s'.mObituaries = some [n]) (ha : s'.answered = s.answered)
    (hr : s'.refs.mWeak = s.refs.mWeak + 1) : Paired weak s' := by
  have hreq : s'.requests = s.requests + 1 := by
    unfold requests
    rw [hqueued, hthis, hhandle, count_write_same]
  have hclr : s'.clears = s.clears := by
    unfold clears
    rw [hqueued, hthis, hhandle, count_write_other (by simp)]
  have hpairs := p.pairs
  have hanswers := p.answers
  rw [if_pos hnone] at hpairs
  refine ⟨?_, by rw [ho]; simp, ?_, ?_⟩
  · rw [hreq, hclr, hpairs, ho, if_neg (by simp)]
  · rw [ha, hclr]
    exact hanswers
  · have hsub : s.requests + 1 - s.answered = s.requests - s.answered + 1 := by omega
    have hone : (BitVec.ofNat 32 1) = 1 := rfl
    rw [hr, hreq, ha, hsub, p.count, BitVec.ofNat_add, hone]
    ac_rfl

/-! ## What each call keeps -/

/-- What every call keeps. -/
def Keeps (weak : BitVec 32) (s s' : DeathState W) : Prop := Paired weak s' ∧ NoMore s s'

theorem linkToDeath.spec {recipient cookie : BitVec 64} {flags : BitVec 32} (p : Paired weak s) :
    wp (linkToDeath x recipient cookie flags) (fun _ s' => Keeps weak s s') anyFault s := by
  unfold linkToDeath
  rw [wp_ite]
  refine ⟨fun _ => trivial, fun _ => ?_⟩
  rw [wp_bind, wp_thisProxy, wp_bind, wp_update, wp_ite]
  constructor
  · intro _
    exact ⟨p.same ⟨rfl, rfl⟩ Iff.rfl p.entries rfl rfl, fun h => ⟨h, rfl⟩⟩
  · intro hsent
    rw [wp_ite]
    constructor
    · intro hnone
      unfold firstLink requestDeathNotification
      simp only [wp_bind, wp_update, wp_thisProxy, wp_write]
      apply incWeak.spec
      apply flushCommands.spec
      intro w
      refine ⟨?_, fun h => absurd h hsent⟩
      exact p.requested hnone rfl rfl rfl (n := s.calls) rfl rfl rfl
    · intro hsome
      unfold addObituary
      simp only [wp_bind, wp_update, wp_pure]
      refine ⟨p.same ⟨rfl, rfl⟩ ?_ ?_ rfl rfl, fun h => absurd h hsent⟩
      · simp
      · obtain ⟨obits, hobits⟩ := Option.ne_none_iff_exists'.mp hsome
        simp [hobits]

/-- Giving the handle back says nothing about links. -/
theorem decStrongHandle.spec (p : Paired weak s) :
    wp (decStrongHandle x) (fun _ s' => Paired weak s' ∧ s'.mObitsSent = s.mObitsSent ∧
      s'.requests = s.requests) anyFault s := by
  have hreq : (s.queued ++ [OutCommand.BC_RELEASE s.binder_handle]).count
      (.BC_REQUEST_DEATH_NOTIFICATION s.binder_handle s.this) = s.requests :=
    count_write_other (by simp)
  have hclr : (s.queued ++ [OutCommand.BC_RELEASE s.binder_handle]).count
      (.BC_CLEAR_DEATH_NOTIFICATION s.binder_handle s.this) = s.clears :=
    count_write_other (by simp)
  unfold decStrongHandle
  rw [wp_bind, wp_thisProxy, wp_bind, wp_write]
  apply flushIfNeeded.spec
  intro out w
  exact ⟨p.same ⟨hreq, hclr⟩ Iff.rfl p.entries rfl rfl, rfl, hreq⟩

theorem onLastStrongRef.spec (p : Paired weak s) :
    wp (onLastStrongRef x) (fun _ s' => Keeps weak s s') anyFault s := by
  unfold onLastStrongRef
  rw [wp_bind]
  refine wp_imp (decStrongHandle.spec p) ?_
  rintro _ t ⟨pt, hsent, hreq⟩
  rw [wp_bind, wp_thisProxy, wp_ite]
  constructor
  · intro _
    exact ⟨pt, fun h => ⟨hsent.trans h, hreq⟩⟩
  · intro hsome
    unfold clearDeathNotification
    rw [wp_bind, wp_bind, wp_thisProxy, wp_write, wp_update]
    obtain ⟨p', hreq'⟩ := pt.cleared (t := { t with
      mOut := t.mOut ++ [.BC_CLEAR_DEATH_NOTIFICATION t.binder_handle t.this]
      queued := t.queued ++ [.BC_CLEAR_DEATH_NOTIFICATION t.binder_handle t.this]
      mObituaries := none }) hsome rfl rfl rfl rfl rfl rfl
    exact ⟨p', fun h => ⟨hsent.trans h, hreq'.trans hreq⟩⟩

theorem unlinkAt.spec {i : Nat} (p : Paired weak s) (hsome : s.mObituaries ≠ none) :
    wp (unlinkAt x i) (fun _ s' => Keeps weak s s') anyFault s := by
  obtain ⟨obits, hobits⟩ := Option.ne_none_iff_exists'.mp hsome
  unfold unlinkAt
  rw [wp_bind]
  apply loadObituary.spec
  intro obit _
  rw [wp_bind, wp_update, wp_bind]
  apply freeObituary.spec
  rw [wp_bind, wp_thisProxy, wp_ite]
  constructor
  · intro _
    unfold clearDeathNotification
    simp only [wp_bind, wp_thisProxy, wp_write]
    apply flushCommands.spec
    intro w
    rw [wp_update, wp_pure]
    obtain ⟨p', hreq⟩ := p.cleared (t := { s with
      loads := s.loads + 1
      mOut := []
      queued := s.queued ++ [.BC_CLEAR_DEATH_NOTIFICATION s.binder_handle s.this]
      mObituaries := none
      world := w }) hsome rfl rfl rfl rfl rfl rfl
    exact ⟨p', fun h => ⟨h, hreq⟩⟩
  · intro hmore
    refine ⟨p.same ⟨rfl, rfl⟩ ?_ hmore rfl rfl, fun h => ⟨h, rfl⟩⟩
    simp [hobits]

theorem unlinkLoop.spec {recipient cookie : BitVec 64} {flags : BitVec 32} {n i : Nat}
    (p : Paired weak s) (hsome : s.mObituaries = none → n = 0) :
    wp (unlinkLoop x recipient cookie flags n i) (fun _ s' => Keeps weak s s') anyFault s := by
  induction n generalizing i s with
  | zero => exact ⟨p, NoMore.refl s⟩
  | succ n ih =>
    have hobits : s.mObituaries ≠ none := by
      intro h
      cases hsome h
    unfold unlinkLoop
    rw [wp_bind]
    apply loadObituary.spec
    intro obit _
    have p' : Paired weak { s with loads := s.loads + 1 } :=
      p.same ⟨rfl, rfl⟩ Iff.rfl p.entries rfl rfl
    rw [wp_ite]
    exact ⟨fun _ => unlinkAt.spec p' hobits, fun _ => ih p' fun h => absurd h hobits⟩

theorem unlinkToDeath.spec {recipient cookie : BitVec 64} {flags : BitVec 32} (p : Paired weak s) :
    wp (unlinkToDeath x recipient cookie flags) (fun _ s' => Keeps weak s s') anyFault s := by
  unfold unlinkToDeath
  rw [wp_bind, wp_thisProxy, wp_ite]
  refine ⟨fun _ => ⟨p, NoMore.refl s⟩, fun _ => unlinkLoop.spec p fun h => ?_⟩
  rw [h]
  rfl

/-- One recipient is told of an entry that has one. -/
def toTell (ob : Obituary) : Nat := if ob.recipient = 0 then 0 else 1

/-- How many recipients `n` entries of `mObituaries` have when they are loaded from load `i` on:
two loads an entry, of which the second is the one that is told. -/
def recipients (dead : DeadLocals) : Nat → Nat → Nat
  | _, 0 => 0
  | i, n + 1 =>
    match dead.stale (i + 1) with
    | none => 0
    | some ob => recipients dead (i + 2) n + toTell ob

theorem recipients_succ {dead : DeadLocals} {i n : Nat} {ob : Obituary}
    (h : dead.stale (i + 1) = some ob) :
    recipients dead i (n + 1) = recipients dead (i + 2) n + toTell ob := by
  rw [recipients, h]

/-- What an obituary leaves: `told` weak references more, which nothing gives back. -/
structure Told (weak : BitVec 32) (told : Nat) (s s' : DeathState W) : Prop where
  paired : Paired (weak + BitVec.ofNat 32 told) s'
  sent : s'.mObitsSent = s.mObitsSent
  same : s'.requests = s.requests

theorem Told.nobody {s' : DeathState W} (p : Paired weak s')
    (hsent : s'.mObitsSent = s.mObitsSent) (hsame : s'.requests = s.requests) :
    Told weak 0 s s' := by
  refine ⟨?_, hsent, hsame⟩
  have hzero : weak + BitVec.ofNat 32 0 = weak := BitVec.add_zero weak
  rw [hzero]
  exact p

theorem Told.trans {n m : Nat} {s t u : DeathState W} (h : Told weak n s t)
    (h' : Told (weak + BitVec.ofNat 32 n) m t u) : Told weak (m + n) s u := by
  refine ⟨?_, h'.sent.trans h.sent, h'.same.trans h.same⟩
  have hsum : weak + BitVec.ofNat 32 (m + n) =
      weak + BitVec.ofNat 32 n + BitVec.ofNat 32 m := by
    rw [BitVec.ofNat_add]
    ac_rfl
  rw [hsum]
  exact h'.paired

/-- One entry: it is loaded, and a recipient is told while the proxy holds itself. -/
theorem reportOneDeath.spec (p : Paired weak s) :
    wp (reportOneDeath x) (fun _ s' => ∃ ob, s.dead.stale (s.loads + 1) = some ob ∧
      Told weak (toTell ob) s s' ∧ s'.dead = s.dead ∧
      s'.loads = s.loads + 2) anyFault s := by
  unfold reportOneDeath
  rw [wp_bind]
  apply loadObituary.spec
  intro asked _
  rw [wp_bind]
  apply outside.spec
  intro _ w
  rw [wp_bind]
  apply loadObituary.spec
  intro obit hobit
  have hload : s.dead.stale (s.loads + 1) = some obit := hobit
  rw [wp_ite]
  constructor
  · intro hnull
    have hnobody : toTell obit = 0 := if_pos hnull
    refine ⟨obit, hload, ?_, rfl, rfl⟩
    rw [hnobody]
    exact Told.nobody (p.same ⟨rfl, rfl⟩ Iff.rfl p.entries rfl rfl) rfl rfl
  · intro hrecipient
    rw [wp_bind]
    apply incWeak.spec
    rw [wp_bind, wp_update]
    apply outside.spec
    intro _ w'
    have hone : toTell obit = 1 := if_neg hrecipient
    have hcount : s.refs.mWeak + 1 = weak + 1 + BitVec.ofNat 32 (s.requests - s.answered) := by
      rw [p.count]
      ac_rfl
    have htold : Told weak 1 s { s with
        loads := s.loads + 2
        refs := { s.refs with mWeak := s.refs.mWeak + 1 }
        died := s.died ++ [obit.recipient]
        world := w' } := ⟨⟨p.pairs, p.entries, p.answers, hcount⟩, rfl, rfl⟩
    rw [← hone] at htold
    exact ⟨obit, hload, htold, rfl, rfl⟩

theorem reportDeaths.spec {n : Nat} (p : Paired weak s) :
    wp (reportDeaths x n) (fun _ s' => Told weak (recipients s.dead s.loads n) s s')
      anyFault s := by
  induction n generalizing s weak with
  | zero => exact Told.nobody p rfl rfl
  | succ n ih =>
    unfold reportDeaths
    rw [wp_bind]
    refine wp_imp (reportOneDeath.spec p) ?_
    rintro _ t ⟨ob, hload, htold, hdead, hloads⟩
    refine wp_imp (ih htold.paired) ?_
    intro _ u hrest
    rw [recipients_succ hload]
    rw [hdead, hloads] at hrest
    exact htold.trans hrest

/-- How many recipients an obituary tells: those of the links there are, when it is the first. -/
def told (s : DeathState W) : Nat :=
  if s.mObitsSent = true then 0 else recipients s.dead s.loads (s.mObituaries.getD []).length

/-- After the obituary it is sent, and nothing was requested. -/
theorem sendObituary.spec (p : Paired weak s) :
    wp (sendObituary x) (fun _ s' => Paired (weak + BitVec.ofNat 32 s.told) s' ∧
      s'.mObitsSent = true ∧ s'.requests = s.requests) anyFault s := by
  unfold sendObituary
  simp only [wp_bind, wp_update, wp_thisProxy]
  rw [wp_ite]
  constructor
  · intro hsent
    have hsent' : s.mObitsSent = true := hsent
    unfold told
    rw [if_pos hsent']
    have h : Told weak 0 s { s with mAlive := false } :=
      Told.nobody (p.same ⟨rfl, rfl⟩ Iff.rfl p.entries rfl rfl) rfl rfl
    exact ⟨h.paired, hsent, rfl⟩
  · intro hopen
    have hopen' : ¬s.mObitsSent = true := hopen
    unfold told closeObituaries clearDeathNotification
    rw [if_neg hopen']
    simp only [wp_bind, wp_thisProxy]
    rw [wp_ite]
    constructor
    · intro _
      rw [wp_update]
      refine wp_imp (reportDeaths.spec (p.same ⟨rfl, rfl⟩ Iff.rfl p.entries rfl rfl)) ?_
      intro _ u h
      exact ⟨h.paired, h.sent, h.same⟩
    · intro hsome
      simp only [wp_bind, wp_write]
      apply flushCommands.spec
      intro w
      rw [wp_update]
      obtain ⟨p', hreq⟩ := p.cleared (t := { s with
        mAlive := false
        mOut := []
        queued := s.queued ++ [.BC_CLEAR_DEATH_NOTIFICATION s.binder_handle s.this]
        mObituaries := none
        mObitsSent := true
        world := w }) hsome rfl rfl rfl rfl rfl rfl
      refine wp_imp (reportDeaths.spec p') ?_
      intro _ u h
      exact ⟨h.paired, h.sent, h.same.trans hreq⟩

theorem clearDeathNotificationDone.spec (p : Paired weak s) (hopen : s.answered < s.clears) :
    wp clearDeathNotificationDone (fun _ s' => Keeps weak s s') anyFault s := by
  unfold clearDeathNotificationDone
  rw [wp_bind, wp_update]
  apply decWeak.spec
  have hpairs := p.pairs
  refine ⟨⟨p.pairs, p.entries, hopen, ?_⟩, fun h => ⟨h, rfl⟩⟩
  have hone : BitVec.ofNat 32 1 = 1 := rfl
  have hsub : s.requests - s.answered = s.requests - (s.answered + 1) + 1 := by
    have hle : s.clears ≤ s.requests := by
      rw [hpairs]
      exact Nat.le_add_right _ _
    omega
  show s.refs.mWeak - 1 = weak + BitVec.ofNat 32 (s.requests - (s.answered + 1))
  rw [p.count, hsub, BitVec.ofNat_add, hone, ← BitVec.add_assoc, BitVec.add_sub_cancel]

/-! ## Every order of calls -/

/-- Recipients and other references that do nothing. -/
def quietDeaths : DeathWorld Unit := ⟨fun _ => pure true, fun _ => pure (), pure ()⟩

/-- A proxy without links that others hold three weak references on. -/
def unlinked (stale : Nat → Option Obituary) : DeathState Unit where
  this := 0x1000
  binder_handle := 4
  refs := ⟨2, 3, OBJECT_LIFETIME_WEAK⟩
  mAlive := true
  mObitsSent := false
  mObituaries := none
  busy := false
  mOut := []
  queued := []
  answered := 0
  died := []
  calls := 0
  loads := 0
  dead := ⟨stale, fun _ => true⟩
  world := ()

inductive DeathCall
  | link (recipient cookie : BitVec 64) (flags : BitVec 32)
  | unlink (recipient cookie : BitVec 64) (flags : BitVec 32)
  | obituary
  | lastStrong
  | cleared
deriving DecidableEq, Repr

/-- One call. What it returns is a status and a recipient, 0 where there is none. -/
def runCall (x : DeathWorld W) : DeathCall → Prog (DeathState W) Fault (Int × BitVec 64)
  | .link recipient cookie flags => do
    let status ← linkToDeath x recipient cookie flags
    pure (status, 0)
  | .unlink recipient cookie flags => unlinkToDeath x recipient cookie flags
  | .obituary => do
    sendObituary x
    pure (STATUS_OK, 0)
  | .lastStrong => do
    onLastStrongRef x
    pure (STATUS_OK, 0)
  | .cleared => do
    clearDeathNotificationDone
    pure (STATUS_OK, 0)

/-- The driver answers each clear at most once. -/
def Answered : DeathCall → DeathState W → Prop
  | .cleared, s => s.answered < s.clears
  | _, _ => True

/-- An obituary finds nobody to tell. -/
def TellsNobody : DeathCall → DeathState W → Prop
  | .obituary, s => s.told = 0
  | _, _ => True

instance (call : DeathCall) (s : DeathState W) : Decidable (Answered call s) :=
  match call with
  | .cleared => inferInstanceAs (Decidable (s.answered < s.clears))
  | .link _ _ _ | .unlink _ _ _ | .obituary | .lastStrong => isTrue trivial

instance (call : DeathCall) (s : DeathState W) : Decidable (TellsNobody call s) :=
  match call with
  | .obituary => inferInstanceAs (Decidable (s.told = 0))
  | .link _ _ _ | .unlink _ _ _ | .lastStrong | .cleared => isTrue trivial

/-- After a call that returns: the handshake is in order, and after an obituary nothing is
requested any more. -/
def InOrder (weak : BitVec 32) (call : DeathCall) (s : DeathState W) :
    Except Fault ((Int × BitVec 64) × DeathState W) → Prop
  | .ok (_, s') => Keeps weak s s' ∧
    (call = .obituary → s'.mObitsSent = true ∧ s'.requests = s.requests)
  | .error _ => True

instance (weak : BitVec 32) (s : DeathState W) : Decidable (Paired weak s) :=
  decidable_of_iff ((s.requests = s.clears + if s.mObituaries = none then 0 else 1) ∧
      s.mObituaries ≠ some [] ∧ s.answered ≤ s.clears ∧
      s.refs.mWeak = weak + BitVec.ofNat 32 (s.requests - s.answered))
    ⟨fun ⟨hp, he, ha, hc⟩ => ⟨hp, he, ha, hc⟩, fun p => ⟨p.pairs, p.entries, p.answers, p.count⟩⟩

instance (s s' : DeathState W) : Decidable (NoMore s s') :=
  inferInstanceAs (Decidable (_ → _))

instance (weak : BitVec 32) (call : DeathCall) (s : DeathState W)
    (r : Except Fault ((Int × BitVec 64) × DeathState W)) : Decidable (InOrder weak call s r) :=
  match r with
  | .ok (_, s') => inferInstanceAs (Decidable ((Paired weak s' ∧ NoMore s s') ∧
    (call = .obituary → s'.mObitsSent = true ∧ s'.requests = s.requests)))
  | .error _ => isTrue trivial

/-- The handshake is in order, whatever the weak references of the others are. -/
def PairsUp (call : DeathCall) (s : DeathState W)
    (r : Except Fault ((Int × BitVec 64) × DeathState W)) : Prop := ∃ weak, InOrder weak call s r

/-- How many weak references stay of a call. -/
def stays (call : DeathCall) (s : DeathState W) : Nat := if call = .obituary then s.told else 0

theorem stays_of_nobody {call : DeathCall} (h : TellsNobody call s) : stays call s = 0 := by
  unfold stays
  split
  · rename_i hobituary
    subst hobituary
    exact h
  · rfl

theorem runCall.spec {call : DeathCall} (p : Paired weak s) (h : Answered call s) :
    InOrder (weak + BitVec.ofNat 32 (stays call s)) call s (runCall x call s) := by
  have hnone : weak + BitVec.ofNat 32 0 = weak := BitVec.add_zero weak
  suffices hwp : wp (runCall x call) (fun _ s' =>
      Keeps (weak + BitVec.ofNat 32 (stays call s)) s s' ∧
      (call = .obituary → s'.mObitsSent = true ∧ s'.requests = s.requests)) anyFault s by
    unfold wp at hwp
    rcases hrun : runCall x call s with e | ⟨b, s'⟩
    · trivial
    · rw [hrun] at hwp
      exact hwp
  unfold runCall stays
  cases call with
  | link recipient cookie flags =>
    rw [if_neg (by simp), hnone, wp_bind]
    exact wp_imp (linkToDeath.spec p) fun _ _ hk => ⟨hk, fun hc => by cases hc⟩
  | unlink recipient cookie flags =>
    rw [if_neg (by simp), hnone]
    exact wp_imp (unlinkToDeath.spec p) fun _ _ hk => ⟨hk, fun hc => by cases hc⟩
  | obituary =>
    rw [if_pos rfl, wp_bind]
    refine wp_imp (sendObituary.spec p) ?_
    rintro _ s' ⟨p', hsent, hreq⟩
    exact ⟨⟨p', fun _ => ⟨hsent, hreq⟩⟩, fun _ => ⟨hsent, hreq⟩⟩
  | lastStrong =>
    rw [if_neg (by simp), hnone, wp_bind]
    exact wp_imp (onLastStrongRef.spec p) fun _ _ hk => ⟨hk, fun hc => by cases hc⟩
  | cleared =>
    rw [if_neg (by simp), hnone, wp_bind]
    exact wp_imp (clearDeathNotificationDone.spec p h) fun _ _ hk => ⟨hk, fun hc => by cases hc⟩

theorem runCall.spec_of_nobody {call : DeathCall} (p : Paired weak s) (h : Answered call s)
    (hnobody : TellsNobody call s) : InOrder weak call s (runCall x call s) := by
  have hspec := runCall.spec (x := x) p h
  have hnone : weak + BitVec.ofNat 32 0 = weak := BitVec.add_zero weak
  rwa [stays_of_nobody hnobody, hnone] at hspec

/-- A proxy that has no links yet, whatever was queued for others. -/
structure Unlinked (s : DeathState W) : Prop where
  links : s.mObituaries = none
  requests : s.requests = 0
  clears : s.clears = 0
  answered : s.answered = 0

theorem Unlinked.paired (u : Unlinked s) : Paired s.refs.mWeak s := by
  refine ⟨?_, ?_, ?_, ?_⟩
  · rw [u.requests, u.clears, u.links, if_pos rfl]
  · rw [u.links]
    simp
  · rw [u.answered]
    exact Nat.zero_le _
  · rw [u.requests, u.answered]
    simp

/-- Every proxy, in every order of calls, pairs its requests with its clears. Where no obituary
tells anybody it also pairs its weak references for links with the requests that are not
answered. -/
theorem requests_and_clears_belong_together (x : DeathWorld W) (s : DeathState W)
    (u : Unlinked s) (calls : List DeathCall) :
    (Allowed (runCall x) Answered calls s → Always (runCall x) PairsUp calls s) ∧
    (Allowed (runCall x) (fun call s => Answered call s ∧ TellsNobody call s) calls s →
      Always (runCall x) (InOrder s.refs.mWeak) calls s) := by
  constructor
  · intro h
    refine always_of_inv (fun s => ∃ weak, Paired weak s) ?_ ?_ ⟨_, u.paired⟩ h
    · rintro call t ⟨weak, p⟩ hc
      exact ⟨_, runCall.spec p hc⟩
    · rintro call t b t' ⟨weak, p⟩ hc hrun
      have hstep := runCall.spec (x := x) p hc
      rw [hrun] at hstep
      exact ⟨_, hstep.1.1⟩
  · intro h
    refine always_of_inv (Paired s.refs.mWeak) ?_ ?_ u.paired h
    · intro call t p hc
      exact runCall.spec_of_nobody p hc.1 hc.2
    · intro call t b t' p hc hrun
      have hstep := runCall.spec_of_nobody (x := x) p hc.1 hc.2
      rw [hrun] at hstep
      exact hstep.1.1

theorem requests_and_clears_belong_together_in_one_life :
    Always (runCall quietDeaths) PairsUp [.link 5 0 0, .obituary]
      (unlinked fun _ => some ⟨5, 0, 0⟩) ∧
    Always (runCall quietDeaths) (InOrder 3)
      [.link 5 0 0, .link 6 0 0, .unlink 5 0 0, .lastStrong, .cleared, .link 5 0 0, .lastStrong,
        .obituary]
      (unlinked fun _ => some ⟨5, 0, 0⟩) := by
  have hlaw := requests_and_clears_belong_together quietDeaths (unlinked fun _ => some ⟨5, 0, 0⟩)
    ⟨rfl, rfl, rfl, rfl⟩
  exact ⟨(hlaw _).1 (by decide +kernel), (hlaw _).2 (by decide +kernel)⟩

/-- A recipient is told, and the weak reference that the proxy took on itself for it stays: one
request is not answered, and the count is two above that of the others. -/
theorem a_told_recipient_leaves_a_reference :
    Allowed (runCall quietDeaths) Answered [.link 5 0 0, .obituary]
      (unlinked fun _ => some ⟨5, 0, 0⟩) ∧
    ¬Always (runCall quietDeaths) (InOrder 3) [.link 5 0 0, .obituary]
      (unlinked fun _ => some ⟨5, 0, 0⟩) := by
  decide +kernel

/-! ## The links themselves -/

inductive LinkCall
  | link (recipient cookie : BitVec 64) (flags : BitVec 32)
  | unlink (recipient cookie : BitVec 64) (flags : BitVec 32)
deriving DecidableEq, Repr

def LinkCall.links : LinkCall → Bool
  | .link _ _ _ => true
  | .unlink _ _ _ => false

/-- With `links` outstanding: an unlink finds what was linked and not removed, and the obituary
at the end tells the recipient of each link that is left, once. -/
def Serves (x : DeathWorld W) (links : List Obituary) : List LinkCall → DeathState W → Prop
  | [], s => ∃ s', sendObituary x s = .ok ((), s') ∧
    s'.died.Perm (s.died ++ links.map Obituary.recipient)
  | .link recipient cookie flags :: rest, s => ∃ s',
    linkToDeath x recipient cookie flags s = .ok (STATUS_OK, s') ∧
    Serves x (links ++ [⟨recipient, cookie, flags⟩]) rest s'
  | .unlink recipient cookie flags :: rest, s => ∃ status out s',
    unlinkToDeath x recipient cookie flags s = .ok ((status, out), s') ∧
    (status = STATUS_OK ↔ ∃ ob ∈ links, Obituary.matches ob recipient cookie flags = true) ∧
    Serves x (links.eraseP fun ob => Obituary.matches ob recipient cookie flags) rest s'

/-- There is a link, and nothing can be loaded any more. -/
structure Lost (s : DeathState W) : Prop where
  linked : ∃ ob obits, s.mObituaries = some (ob :: obits)
  open_ : s.mObitsSent = false
  trap : ∀ n, s.dead.stale n = none

theorem link_lost {recipient cookie : BitVec 64} {flags : BitVec 32}
    (hopen : s.mObitsSent = false) (htrap : ∀ n, s.dead.stale n = none) :
    wp (linkToDeath x recipient cookie flags) (fun _ s' => Lost s') anyFault s := by
  have hsent : ¬s.mObitsSent = true := by simp [hopen]
  unfold linkToDeath
  rw [wp_ite]
  refine ⟨fun _ => trivial, fun _ => ?_⟩
  rw [wp_bind, wp_thisProxy, wp_bind, wp_update, if_neg hsent, wp_ite]
  constructor
  · intro hnone
    unfold firstLink requestDeathNotification addObituary
    simp only [wp_bind, wp_update, wp_thisProxy, wp_write]
    apply incWeak.spec
    apply flushCommands.spec
    intro w
    exact ⟨⟨s.calls, [], rfl⟩, hopen, htrap⟩
  · intro hsome
    obtain ⟨obits, hobits⟩ := Option.ne_none_iff_exists'.mp hsome
    unfold addObituary
    simp only [wp_bind, wp_update, wp_pure]
    refine ⟨?_, hopen, htrap⟩
    cases obits with
    | nil => exact ⟨s.calls, [], by simp [hobits]⟩
    | cons ob rest => exact ⟨ob, rest ++ [s.calls], by simp [hobits]⟩

theorem load_lost {Q : Obituary → DeathState W → Prop} (htrap : ∀ n, s.dead.stale n = none) :
    wp loadObituary Q anyFault s := by
  unfold loadObituary wp
  simp only [htrap]
  trivial

theorem obituary_lost (h : Lost s) : wp (sendObituary x) (fun _ _ => False) anyFault s := by
  obtain ⟨ob, obits, hobits⟩ := h.linked
  have hsent : ¬s.mObitsSent = true := by simp [h.open_]
  have hsome : s.mObituaries ≠ none := by simp [hobits]
  unfold sendObituary
  simp only [wp_bind, wp_update, wp_thisProxy]
  rw [if_neg hsent]
  unfold closeObituaries clearDeathNotification
  simp only [wp_bind, wp_thisProxy]
  rw [if_neg hsome]
  simp only [wp_bind, wp_thisProxy, wp_write]
  apply flushCommands.spec
  intro w
  rw [wp_update, hobits]
  show wp (reportDeaths x (obits.length + 1)) _ anyFault _
  unfold reportDeaths reportOneDeath
  rw [wp_bind, wp_bind]
  exact load_lost h.trap

theorem unlink_lost {recipient cookie : BitVec 64} {flags : BitVec 32} (h : Lost s) :
    wp (unlinkToDeath x recipient cookie flags) (fun _ _ => False) anyFault s := by
  obtain ⟨ob, obits, hobits⟩ := h.linked
  have hsent : ¬s.mObitsSent = true := by simp [h.open_]
  unfold unlinkToDeath
  rw [wp_bind, wp_thisProxy, if_neg hsent, hobits]
  show wp (unlinkLoop x recipient cookie flags (obits.length + 1) 0) _ anyFault s
  unfold unlinkLoop
  rw [wp_bind]
  exact load_lost h.trap

/-- Once a link is lost, what follows does not go as linked. -/
theorem Lost.not_serves (h : Lost s) (calls : List LinkCall) (links : List Obituary) :
    ¬Serves x links calls s := by
  induction calls generalizing s links with
  | nil =>
    rintro ⟨s', hrun, -⟩
    exact (obituary_lost h).of_ok hrun
  | cons call rest ih =>
    cases call with
    | link recipient cookie flags =>
      rintro ⟨s', hrun, hrest⟩
      exact ih ((link_lost h.open_ h.trap).of_ok hrun) _ hrest
    | unlink recipient cookie flags =>
      rintro ⟨status, out, s', hrun, -⟩
      exact (unlink_lost h).of_ok hrun

/-- Before the first link an unlink finds nothing, and changes nothing. -/
theorem unlink_unlinked {recipient cookie : BitVec 64} {flags : BitVec 32}
    (hnone : s.mObituaries = none) (hopen : s.mObitsSent = false) :
    unlinkToDeath x recipient cookie flags s = .ok ((STATUS_NAME_NOT_FOUND, 0), s) := by
  have hwp : wp (unlinkToDeath x recipient cookie flags)
      (fun r s' => r = (STATUS_NAME_NOT_FOUND, 0) ∧ s' = s) never s := by
    unfold unlinkToDeath
    rw [wp_bind, wp_thisProxy, if_neg (by simp [hopen]), hnone]
    exact ⟨rfl, rfl⟩
  obtain ⟨r, s', hrun, rfl, rfl⟩ := wp_never_iff.mp hwp
  exact hrun

/-- Without links the obituary tells nobody. -/
theorem obituary_unlinked (hnone : s.mObituaries = none) (hopen : s.mObitsSent = false) :
    ∃ s', sendObituary x s = .ok ((), s') ∧ s'.died = s.died := by
  have hwp : wp (sendObituary x) (fun _ s' => s'.died = s.died) never s := by
    unfold sendObituary
    simp only [wp_bind, wp_update, wp_thisProxy]
    rw [if_neg (by simp [hopen])]
    unfold closeObituaries
    simp only [wp_bind, wp_thisProxy]
    rw [if_pos hnone, wp_update, hnone]
    rfl
  obtain ⟨_, s', hrun, hdied⟩ := wp_never_iff.mp hwp
  exact ⟨s', hrun, hdied⟩

/-- A live proxy without links serves the calls, whatever its dead local variables hold, exactly
when none of the calls is a link. -/
theorem links_are_served_where_there_are_none (x : DeathWorld W) (s : DeathState W)
    (hnone : s.mObituaries = none) (hopen : s.mObitsSent = false) (calls : List LinkCall) :
    (∀ dead, Serves x [] calls { s with dead := dead }) ↔ ∀ call ∈ calls, call.links = false := by
  constructor
  · intro h
    have hserves := h ⟨fun _ => none, fun _ => true⟩
    clear h
    generalize hstart : { s with dead := ⟨fun _ => none, fun _ => true⟩ } = t at hserves
    have hnone' : t.mObituaries = none := by rw [← hstart, hnone]
    have hopen' : t.mObitsSent = false := by rw [← hstart, hopen]
    have htrap : ∀ n, t.dead.stale n = none := by
      rw [← hstart]
      exact fun _ => rfl
    induction calls with
    | nil =>
      intro call hcall
      cases hcall
    | cons call rest ih =>
      cases call with
      | link recipient cookie flags =>
        obtain ⟨s', hrun, hrest⟩ := hserves
        have hlost := (link_lost (x := x) hopen' htrap).of_ok hrun
        exact absurd hrest (hlost.not_serves rest _)
      | unlink recipient cookie flags =>
        obtain ⟨status, out, s', hrun, -, hrest⟩ := hserves
        rw [unlink_unlinked hnone' hopen'] at hrun
        cases hrun
        intro call hcall
        rcases List.mem_cons.mp hcall with rfl | hmore
        · rfl
        · exact ih hrest call hmore
  · intro h dead
    induction calls with
    | nil =>
      obtain ⟨s', hrun, hdied⟩ :=
        obituary_unlinked (x := x) (s := { s with dead := dead }) hnone hopen
      refine ⟨s', hrun, ?_⟩
      rw [hdied, List.map_nil, List.append_nil]
    | cons call rest ih =>
      cases call with
      | link recipient cookie flags =>
        have hlinks := h _ List.mem_cons_self
        cases hlinks
      | unlink recipient cookie flags =>
        refine ⟨STATUS_NAME_NOT_FOUND, 0, _, unlink_unlinked hnone hopen, ?_, ?_⟩
        · constructor
          · intro hstatus
            cases hstatus
          · rintro ⟨ob, hob, -⟩
            cases hob
        · exact ih fun call hcall => h call (List.mem_cons_of_mem _ hcall)

theorem links_are_served_where_there_are_none_for_two_unlinks :
    Serves quietDeaths [] [.unlink 5 0 0, .unlink 0 1 0] (unlinked fun _ => none) :=
  (links_are_served_where_there_are_none quietDeaths (unlinked fun _ => none) rfl rfl
    [.unlink 5 0 0, .unlink 0 1 0]).mpr (by decide) (unlinked fun _ => none).dead

/-- A recipient links itself, and another one is told, that of the call that used the stack
last. -/
theorem another_recipient_is_told :
    ¬Serves quietDeaths [] [.link 5 0 0] (unlinked fun _ => some ⟨7, 0, 0⟩) := by
  rintro ⟨s', hrun, s'', hrun', hperm⟩
  have htold : ((linkToDeath quietDeaths 5 0 0 >>= fun _ => sendObituary quietDeaths)
      (unlinked fun _ => some ⟨7, 0, 0⟩)).map (fun r => r.2.died) = .ok [7] := by decide +kernel
  have hboth : (linkToDeath quietDeaths 5 0 0 >>= fun _ => sendObituary quietDeaths)
      (unlinked fun _ => some ⟨7, 0, 0⟩) = .ok ((), s'') := by
    show (linkToDeath quietDeaths 5 0 0 (unlinked fun _ => some ⟨7, 0, 0⟩) >>= fun p =>
      sendObituary quietDeaths p.2) = _
    rw [hrun]
    exact hrun'
  rw [hboth] at htold
  have hbefore : (linkToDeath quietDeaths 5 0 0 (unlinked fun _ => some ⟨7, 0, 0⟩)).map
      (fun r => r.2.died) = .ok [] := by decide +kernel
  rw [hrun] at hbefore
  have hdied : s''.died = [7] := Except.ok.inj htold
  have hnone : s'.died = [] := Except.ok.inj hbefore
  rw [hdied, hnone] at hperm
  exact absurd (hperm.mem_iff.mp List.mem_cons_self) (by decide)

end DeathState

end system_binder
