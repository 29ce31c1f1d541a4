-- The runs of one thread over the proxies of its process: what their users may do, and the
-- invariant that every run keeps.
import SystemBinder.ProxyEffects

open prog

namespace system_binder

namespace Process

/-! ## The run -/

/-- What the thread and the users of proxies do. -/
inductive Op
  | newProxy (handle : BitVec 32)
  | incStrong (a : Nat)
  | forceIncStrong (a : Nat)
  | attemptIncStrong (a : Nat)
  | decStrong (a : Nat)
  | incWeak (a : Nat)
  | decWeak (a : Nat)
  | setLooper (looper : Bool)
  | setServing (place : Option Nat)
  | write (cmd : OutCommand)
  | talkWithDriver
  | flushCommands
deriving DecidableEq, Repr

/-- One operation, with what it answers. Only `attemptIncStrong` may answer no. -/
def perform (k : Knot) : Op → Prog Process Fault Bool
  | .newProxy handle => do
    let _ ← newProxy k handle
    pure true
  | .incStrong a => do
    (refBase k a).incStrong
    pure true
  | .forceIncStrong a => do
    (refBase k a).forceIncStrong
    pure true
  | .attemptIncStrong a => (refBase k a).attemptIncStrong
  | .decStrong a => do
    (refBase k a).decStrong
    pure true
  | .incWeak a => do
    (refBase k a).incWeak
    pure true
  | .decWeak a => do
    (refBase k a).decWeak
    pure true
  | .setLooper looper => do
    update fun s => { s with mIsLooper := looper }
    pure true
  | .setServing place => do
    update fun s => { s with thread := { s.thread with mServingStackPointer := place } }
    pure true
  | .write cmd => do
    write cmd
    pure true
  | .talkWithDriver => do
    talkWithDriver k
    pure true
  | .flushCommands => do
    flushCommands k
    pure true

/-- The references that the users hold after an operation. -/
def Totals.after (l : Totals) (ok : Bool) : Op → Totals
  | .incStrong a | .forceIncStrong a => l.addStrong a
  | .attemptIncStrong a => if ok = true then l.addStrong a else l
  | .decStrong a => l.takeStrong a
  | .incWeak a => l.addWeak a
  | .decWeak a => l.takeWeak a
  | _ => l

/-- One operation on a process whose users hold the references of the ledger. -/
def step (n : Nat) (op : Op) : Prog (Process × Totals) Fault Bool := fun x =>
  match perform (knot (n + 3)) op x.1 with
  | .ok (ok, s') => .ok (ok, (s', x.2.after ok op))
  | .error e => .error e

/-- The references on `a` stay below `MAX_COUNT`, a temporary one included. -/
def Room (x : Process × Totals) (a : Nat) : Prop :=
  (x.2.withTemps x.1).strong a + (x.2.withTemps x.1).weak a + 1 < MAX_COUNT.toNat

/-- When the driver takes the commands, the thread need not flush, or some user holds each
proxy that waits. -/
def Held (x : Process × Totals) : Prop :=
  x.1.mDriverFD < 0 ∨ x.1.busy = true ∨ ∀ a ∈ x.1.mPostWriteStrongDerefs, 0 < x.2.strong a

/-- There is a proxy at `a`. -/
def Live (x : Process × Totals) (a : Nat) : Prop := (x.1.objects a).binder_handle.isSome = true

/-- What the users of proxies keep to: they use the proxies there are, give back what they
hold, and take no strong reference again once the last one is gone, unless by force. -/
def Matched (op : Op) (x : Process × Totals) : Prop :=
  match op with
  | .incStrong a => Live x a ∧ (x.2.owned a = false ∨ 0 < (x.2.withTemps x.1).strong a)
  | .forceIncStrong a | .attemptIncStrong a | .incWeak a => Live x a
  | .decStrong a => 0 < x.2.strong a
  | .decWeak a => 0 < x.2.weak a
  | .write cmd => plain cmd = true
  | _ => True

/-- The object that an operation takes a reference on. -/
def taken : Op → Option Nat
  | .incStrong a | .forceIncStrong a | .attemptIncStrong a | .incWeak a => some a
  | _ => none

/-- The users give back what they hold, and the counts stay below `MAX_COUNT`. -/
def Disciplined (op : Op) (x : Process × Totals) : Prop :=
  Matched op x ∧ ∀ a ∈ taken op, Room x a

/-- Whether the thread hands its commands to the driver. -/
def drains (op : Op) : Prop := op = .talkWithDriver ∨ op = .flushCommands

/-- The users are disciplined, and hold what waits when the driver takes the commands. -/
def Respects (op : Op) (x : Process × Totals) : Prop :=
  Disciplined op x ∧ (drains op → Held x)

instance (op : Op) (x : Process × Totals) : Decidable (Matched op x) := by
  unfold Matched Live
  cases op <;> infer_instance

instance (op : Op) (x : Process × Totals) : Decidable (Disciplined op x) := by
  unfold Disciplined Room
  infer_instance

instance (op : Op) (x : Process × Totals) : Decidable (Respects op x) := by
  unfold Respects drains Held
  infer_instance

/-- A thread of a process without proxies. They will stand behind its context object. -/
def start (mDriverFD : Int) (mContextObject : Nat) : Process where
  thread := ⟨none, 0, none, 0, 0, 0, 0, false⟩
  mIsLooper := false
  mIsFlushing := false
  mDriverFD := mDriverFD
  mOut := []
  mPostWriteWeakDerefs := []
  mPostWriteStrongDerefs := []
  objects := fun _ => ⟨none, WeakrefImpl.ctor⟩
  next := mContextObject + 1
  mContextObject := mContextObject
  mHandleToObject := VectorBase.ctor
  entries := []
  throttled := false
  pingStatus := 0
  granted := true
  sent := []
  queued := []
  pushed := []
  released := []

/-- Nobody holds anything. -/
def Totals.none : Totals := ⟨fun _ => 0, fun _ => 0, fun _ => false⟩

variable {l l' : Totals} {s s' : Process} {k : Knot} {a n : Nat}

/-! ## The invariant -/

/-- Every temporary reference waits or was given back once, and it waits only while there are
commands. -/
structure Balanced (s : Process) : Prop where
  once : ∀ x, s.pushed.count x = s.released.count x + s.pending.count x
  settled : Settled s

/-- The invariant of a run. -/
structure Good (x : Process × Totals) : Prop where
  first : 0 < x.1.next
  has : Has (x.2.withTemps x.1) x.1
  balanced : Balanced x.1
  unused : ∀ a, x.1.next ≤ a → (x.1.objects a).binder_handle = none ∧ x.2.owned a = false ∧
    x.2.weak a = 0 ∧ x.1.pushed.count (.strong a) = 0 ∧ x.1.pushed.count (.weak a) = 0
  modes : ∀ a, Live x a → strongMode (x.1.objects a).refs.mFlags = false

theorem count_pending_weak : s.pending.count (.weak a) = s.mPostWriteWeakDerefs.count a := by
  have hinj : Function.Injective TempRef.weak := fun _ _ h => TempRef.weak.inj h
  have hnone : TempRef.weak a ∉ s.mPostWriteStrongDerefs.map TempRef.strong := by simp
  unfold pending
  rw [List.count_append, List.count_eq_zero_of_not_mem hnone, Nat.add_zero,
    List.count_map_of_injective _ _ hinj]

theorem Effect.has (h : Effect l l' s s') : Has (l'.withTemps s') s' := by
  unfold Effect at h
  split at h
  · obtain ⟨weaks, strongs, cmds, hmoved, -⟩ := h
    exact hmoved.has
  · exact Flushed.has h

theorem Effect.same (h : Effect l l' s s') : s'.fixed = s.fixed := by
  unfold Effect at h
  split at h
  · obtain ⟨weaks, strongs, cmds, hmoved, -⟩ := h
    exact hmoved.same
  · exact Flushed.same h

/-- What waits after a move. -/
theorem Moved.pending {t t' : Totals} {weaks strongs : List Nat} {cmds : List OutCommand}
    (h : Moved t t' s s' weaks strongs cmds) (x : TempRef) : s'.pending.count x =
      s.pending.count x + (weaks.map TempRef.weak ++ strongs.map TempRef.strong).count x := by
  unfold Process.pending
  rw [h.weakDerefs, h.strongDerefs]
  simp only [List.map_append, List.count_append]
  omega

theorem Effect.balanced (h : Effect l l' s s') (hb : Balanced s) : Balanced s' := by
  unfold Effect at h
  split at h
  · obtain ⟨weaks, strongs, cmds, hmoved, htold⟩ := h
    refine ⟨fun x => ?_, fun hout => ?_⟩
    · have honce := hb.once x
      have hpushed := hmoved.pushed x
      have hpending := hmoved.pending x
      rw [hmoved.released]
      omega
    · rw [hmoved.mOut] at hout
      obtain ⟨hout, hcmds⟩ := List.append_eq_nil_iff.mp hout
      rcases htold with ⟨-, rfl, rfl⟩ | ⟨cmd, hcmd, -⟩
      · have hpending := hb.settled hout
        unfold Process.pending at hpending ⊢
        rw [hmoved.weakDerefs, hmoved.strongDerefs, List.append_nil, List.append_nil]
        exact hpending
      · rw [hcmds] at hcmd
        cases hcmd
  · refine ⟨fun x => ?_, Flushed.settled h hb.settled⟩
    have honce := hb.once x
    have hpushed := Flushed.pushed h x
    have hconserved := Flushed.conserved h x
    omega

/-- Only proxies are kept. -/
theorem Effect.pushed (h : Effect l l' s s') (hnone : (s.objects a).binder_handle = none) :
    s'.pushed.count (.strong a) = s.pushed.count (.strong a) ∧
      s'.pushed.count (.weak a) = s.pushed.count (.weak a) := by
  unfold Effect at h
  split at h
  · obtain ⟨weaks, strongs, cmds, hmoved, htold⟩ := h
    have hkept : a ∉ weaks ++ strongs := by
      intro hmem
      rcases htold with ⟨-, rfl, rfl⟩ | ⟨cmd, -, hproxies, -⟩
      · cases hmem
      · exact hproxies a hmem hnone
    rw [List.mem_append, not_or] at hkept
    have hstrong := hmoved.pushed (.strong a)
    have hweak := hmoved.pushed (.weak a)
    have hnostrong : TempRef.strong a ∉ weaks.map TempRef.weak ++ strongs.map TempRef.strong := by
      simpa using hkept.2
    have hnoweak : TempRef.weak a ∉ weaks.map TempRef.weak ++ strongs.map TempRef.strong := by
      simpa using hkept.1
    rw [List.count_eq_zero_of_not_mem hnostrong] at hstrong
    rw [List.count_eq_zero_of_not_mem hnoweak] at hweak
    exact ⟨hstrong, hweak⟩
  · exact ⟨Flushed.pushed h _, Flushed.pushed h _⟩

/-- What leaves the proxies alone keeps the invariant, as far as the counts go. -/
theorem Good.same (hg : Good (s, l)) (hsame : s'.fixed = s.fixed)
    (hhas : Has (l'.withTemps s') s') (hbalanced : Balanced s')
    (hpushed : ∀ a, (s.objects a).binder_handle = none →
      s'.pushed.count (.strong a) = s.pushed.count (.strong a) ∧
      s'.pushed.count (.weak a) = s.pushed.count (.weak a))
    (hledger : ∀ a, s.next ≤ a → l'.owned a = l.owned a ∧ l'.weak a = l.weak a) :
    Good (s', l') := by
  have hnext : s'.next = s.next := congrArg Fixed.next hsame
  have hhandles : ∀ a, (s'.objects a).binder_handle = (s.objects a).binder_handle :=
    fun a => congrFun (congrArg Fixed.handles hsame) a
  have hmodes : ∀ a, (s'.objects a).refs.mFlags = (s.objects a).refs.mFlags :=
    fun a => congrFun (congrArg Fixed.modes hsame) a
  refine ⟨?_, hhas, hbalanced, fun a ha => ?_, fun a ha => ?_⟩
  · show 0 < s'.next
    rw [hnext]
    exact hg.first
  · have ha' : s.next ≤ a := by
      rw [← hnext]
      exact ha
    obtain ⟨hnone, howned, hweak, hcounts⟩ := hg.unused a ha'
    have hl := hledger a ha'
    refine ⟨(hhandles a).trans hnone, hl.1.trans howned, hl.2.trans hweak, ?_, ?_⟩
    · exact (hpushed a hnone).1.trans hcounts.1
    · exact (hpushed a hnone).2.trans hcounts.2
  · have hlive : (s'.objects a).binder_handle.isSome = true := ha
    rw [hhandles] at hlive
    rw [hmodes]
    exact hg.modes a hlive

/-- An operation on the references of proxies keeps the invariant. -/
theorem Good.effect (hg : Good (s, l)) (h : Effect l l' s s')
    (hledger : ∀ a, s.next ≤ a → l'.owned a = l.owned a ∧ l'.weak a = l.weak a) :
    Good (s', l') :=
  hg.same h.same h.has (h.balanced hg.balanced) (fun _ hnone => h.pushed hnone) hledger

/-- A drain keeps the invariant. -/
theorem Good.flushed (hg : Good (s, l)) (h : Flushed l s s') : Good (s', l) := by
  refine hg.same h.same h.has ⟨fun x => ?_, h.settled hg.balanced.settled⟩
    (fun a _ => ⟨h.pushed _, h.pushed _⟩) fun _ _ => ⟨rfl, rfl⟩
  have honce : s.pushed.count x = s.released.count x + s.pending.count x := hg.balanced.once x
  have hpushed := h.pushed x
  have hconserved := h.conserved x
  omega

/-- The start of a run. -/
theorem start_good (fd : Int) (context : Nat) : Good (start fd context, Totals.none) where
  first := Nat.succ_pos context
  has := ⟨fun _ => rfl, fun _ _ => rfl, fun _ => by simp [Totals.none, Totals.withTemps, start]⟩
  balanced := ⟨fun _ => rfl, fun _ => rfl⟩
  unused := fun _ _ => ⟨rfl, rfl, rfl, rfl, rfl⟩
  modes := by
    intro a ha
    have hnone : (none : Option (BitVec 32)).isSome = true := ha
    cases hnone

/-! ## New proxies -/

/-- The process with a new proxy. -/
def allocated (handle : BitVec 32) (s : Process) : Process := { s with
  objects := Function.update s.objects s.next
    ⟨some handle, WeakrefImpl.ctor.extendObjectLifetime OBJECT_LIFETIME_WEAK⟩
  next := s.next + 1 }

/-- Nobody has a reference where there is no proxy. -/
theorem Good.nothing (hg : Good (s, l)) (ha : s.next ≤ a) :
    (l.withTemps s).count a = none ∧ (l.withTemps s).strong a = 0 ∧
      (l.withTemps s).weak a = 0 := by
  obtain ⟨-, howned, hweak, hpushed⟩ := hg.unused a ha
  refine ⟨?_, hg.has.fresh a howned, ?_⟩
  · unfold Totals.count
    exact if_neg (by simpa [Totals.withTemps] using howned)
  · have honce := hg.balanced.once (.weak a)
    rw [count_pending_weak] at honce
    have hcount := hpushed.2
    simp only [Totals.withTemps] at hcount hweak honce ⊢
    omega

theorem Good.allocated {handle : BitVec 32} (hg : Good (s, l)) :
    Good (allocated handle s, l) := by
  have hnew : ∀ b, b ≠ s.next → (Process.allocated handle s).objects b = s.objects b :=
    fun b hb => Function.update_of_ne hb _ _
  have hself : (Process.allocated handle s).objects s.next =
      ⟨some handle, WeakrefImpl.ctor.extendObjectLifetime OBJECT_LIFETIME_WEAK⟩ :=
    Function.update_self _ _ _
  refine ⟨Nat.succ_pos _, ⟨fun b => ?_, hg.has.fresh, hg.has.small⟩,
    ⟨hg.balanced.once, hg.balanced.settled⟩, fun b hb => ?_, fun b hb => ?_⟩
  · by_cases hbn : b = s.next
    · obtain ⟨hcount, hstrong, hweak⟩ := hg.nothing (le_of_eq hbn.symm)
      have htemps : l.withTemps (Process.allocated handle s) = l.withTemps s := rfl
      rw [htemps, hcount, hstrong, hweak, hbn, hself]
      rfl
    · rw [hnew b hbn]
      exact hg.has.refs b
  · have hb' : s.next + 1 ≤ b := hb
    rw [hnew b (by omega)]
    exact hg.unused b (show s.next ≤ b by omega)
  · have hlive : ((Process.allocated handle s).objects b).binder_handle.isSome = true := hb
    by_cases hbn : b = s.next
    · rw [hbn, hself]
      show strongMode (WeakrefImpl.ctor.extendObjectLifetime OBJECT_LIFETIME_WEAK).mFlags = false
      decide
    · rw [hnew b hbn] at hlive ⊢
      exact hg.modes b hlive

theorem newProxy.effect {handle : BitVec 32} (hg : Good (s, l)) :
    wp (newProxy (knot (n + 2)) handle)
      (fun b s' => b = s.next ∧ Effect l l (Process.allocated handle s) s') never s := by
  obtain ⟨-, hstrong, hweak⟩ := hg.nothing le_rfl
  have hself : (Process.allocated handle s).objects s.next =
      ⟨some handle, WeakrefImpl.ctor.extendObjectLifetime OBJECT_LIFETIME_WEAK⟩ :=
    Function.update_self _ _ _
  have halloc : Has (l.withTemps (Process.allocated handle s)) (Process.allocated handle s) :=
    (Good.allocated hg).has
  unfold newProxy
  rw [wp_bind, wp_thisProcess, wp_bind, wp_update, wp_bind]
  refine wp_imp (incWeakHandle.effect (s := Process.allocated handle s) (a := s.next) halloc
    (by rw [hself]; simp) ?_) fun _ s' heffect => ?_
  · show (l.withTemps s).strong s.next + (l.withTemps s).weak s.next + 2 < 2 ^ 20
    omega
  · exact ⟨rfl, heffect⟩

/-! ## One operation -/

theorem lt_maxCount {m : Nat} : m + 1 < MAX_COUNT.toNat ↔ m + 2 < 2 ^ 20 := by
  rw [show MAX_COUNT.toNat = 2 ^ 20 - 1 from rfl]
  omega

/-- How an operation that answered `ok` left the process. -/
inductive Outcome (s : Process) (l : Totals) : Op → Bool → Process → Prop
  | effect {op : Op} {ok : Bool} {s' : Process} (hop : ¬drains op)
      (hledger : ∀ a, s.next ≤ a → (l.after ok op).owned a = l.owned a ∧
        (l.after ok op).weak a = l.weak a)
      (h : Effect l (l.after ok op) s s') : Outcome s l op ok s'
  | born {handle : BitVec 32} {s' : Process} (h : Effect l l (allocated handle s) s') :
      Outcome s l (.newProxy handle) true s'
  | talks {op : Op} {s' : Process} (hop : drains op) (h : Talks l s s')
      (hdrained : 0 ≤ s.mDriverFD → s'.pending = []) : Outcome s l op true s'
  | looper (looper : Bool) : Outcome s l (.setLooper looper) true { s with mIsLooper := looper }
  | serving (place : Option Nat) : Outcome s l (.setServing place) true
      { s with thread := { s.thread with mServingStackPointer := place } }

/-- The driver takes the commands of a thread whose waiting proxies are held. -/
theorem Held.calm (h : Held (s, l)) (hopen : ¬s.mDriverFD < 0) :
    Calm s (l.withTemps s) s.mPostWriteStrongDerefs := by
  rcases h with h | h | h
  · exact absurd h hopen
  · exact Or.inl h
  · right
    intro a ha
    have hpos : 0 < l.strong a := h a ha
    simp only [Totals.withTemps]
    omega

theorem Good.ne_of_live {b : Nat} (hg : Good (s, l)) (ha : Live (s, l) a) (hb : s.next ≤ b) :
    b ≠ a := by
  rintro rfl
  have hlive : (s.objects b).binder_handle.isSome = true := ha
  rw [(hg.unused b hb).1] at hlive
  cases hlive

theorem addStrong_same (l : Totals) {a b : Nat} (hab : b ≠ a) :
    (l.addStrong a).owned b = l.owned b ∧ (l.addStrong a).weak b = l.weak b :=
  ⟨Totals.owned_setStrong_ne l _ hab, rfl⟩

/-- Every operation that its users may run returns. -/
theorem perform.spec (op : Op) (hg : Good (s, l)) (hc : Respects op (s, l)) :
    wp (perform (knot (n + 3)) op) (fun ok s' => Outcome s l op ok s') never s := by
  obtain ⟨⟨hc, hroom⟩, hheld⟩ := hc
  cases op with
  | newProxy handle =>
    simp only [perform, wp_bind, wp_pure]
    exact wp_imp (newProxy.effect (n := n + 1) hg) fun _ _ heffect => .born heffect.2
  | incStrong a =>
    obtain ⟨hlive, hown⟩ := hc
    simp only [perform, wp_bind, wp_pure]
    refine wp_imp (incStrong.effect hg.has hown (lt_maxCount.mp (hroom a rfl)))
      fun _ s' heffect => .effect (by simp [drains]) (fun b hb => ?_) heffect
    exact addStrong_same l (hg.ne_of_live hlive hb)
  | forceIncStrong a =>
    simp only [perform, wp_bind, wp_pure]
    refine wp_imp (forceIncStrong.effect hg.has (lt_maxCount.mp (hroom a rfl)))
      fun _ s' heffect => .effect (by simp [drains]) (fun b hb => ?_) heffect
    exact addStrong_same l (hg.ne_of_live hc hb)
  | attemptIncStrong a =>
    simp only [perform]
    refine wp_imp (attemptIncStrong.effect hg.has (hg.modes a hc) (lt_maxCount.mp (hroom a rfl)))
      fun ok s' heffect => .effect (by simp [drains]) (fun b hb => ?_) heffect.1
    show (if ok = true then l.addStrong a else l).owned b = _ ∧ _
    cases ok with
    | true => exact addStrong_same l (hg.ne_of_live hc hb)
    | false => exact ⟨rfl, rfl⟩
  | decStrong a =>
    have hpos : 0 < l.strong a := hc
    have howned : l.owned a = true := hg.has.owned (t := l.withTemps s) (Nat.add_pos_left hpos _)
    simp only [perform, wp_bind, wp_pure]
    refine wp_imp (decStrong.effect hg.has hpos) fun _ s' heffect =>
      .effect (by simp [drains]) (fun b hb => ⟨Totals.owned_setStrong_ne l _ ?_, rfl⟩) heffect
    rintro rfl
    have hnot : l.owned b = false := (hg.unused b hb).2.1
    rw [howned] at hnot
    cases hnot
  | incWeak a =>
    simp only [perform, wp_bind, wp_pure]
    exact wp_imp (incWeak.effect hg.has (lt_maxCount.mp (hroom a rfl))) fun _ s' heffect =>
      .effect (by simp [drains])
        (fun b hb => ⟨rfl, Totals.weak_setWeak_ne l _ (hg.ne_of_live hc hb)⟩) heffect
  | decWeak a =>
    have hpos : 0 < l.weak a := hc
    simp only [perform, wp_bind, wp_pure]
    refine wp_imp (decWeak.effect hg.has hpos) fun _ s' heffect =>
      .effect (by simp [drains]) (fun b hb => ⟨rfl, Totals.weak_setWeak_ne l _ ?_⟩) heffect
    rintro rfl
    have hnot : l.weak b = 0 := (hg.unused b hb).2.2.1
    omega
  | setLooper looper =>
    simp only [perform, wp_bind, wp_pure, wp_update]
    exact .looper looper
  | setServing place =>
    simp only [perform, wp_bind, wp_pure, wp_update]
    exact .serving place
  | write cmd =>
    simp only [perform, wp_bind, wp_pure]
    exact wp_imp (write.effect (l := l) hg.has hc) fun _ s' heffect =>
      .effect (by simp [drains]) (fun _ _ => ⟨rfl, rfl⟩) heffect
  | talkWithDriver =>
    simp only [perform, wp_bind, wp_pure]
    by_cases hopen : s.mDriverFD < 0
    · rw [talkWithDriver.spec_closed hopen]
      exact .talks (Or.inl rfl) Relation.ReflTransGen.refl fun hfd =>
        absurd hfd (not_le.mpr hopen)
    · refine wp_imp (talkWithDriver.spec (n := n + 2) hg.has ((hheld (Or.inl rfl)).calm hopen))
        fun _ s' htalk => ?_
      split at htalk
      · rename_i hnot
        rw [htalk]
        exact .talks (Or.inl rfl) Relation.ReflTransGen.refl fun _ =>
          hg.balanced.settled (hnot.resolve_left hopen)
      · obtain ⟨cmds, htalked⟩ := htalk
        exact .talks (Or.inl rfl) (Relation.ReflTransGen.single ⟨cmds, htalked⟩) fun _ =>
          htalked.pending_nil
  | flushCommands =>
    simp only [perform, wp_bind, wp_pure]
    by_cases hopen : s.mDriverFD < 0
    · rw [flushCommands.spec_closed hopen]
      exact .talks (Or.inr rfl) Relation.ReflTransGen.refl fun hfd =>
        absurd hfd (not_le.mpr hopen)
    · refine wp_imp (flushCommands.spec (n := n + 1) hg.has ((hheld (Or.inr rfl)).calm hopen)) ?_
      rintro _ s' ⟨htalks, hdone⟩
      exact .talks (Or.inr rfl) htalks fun hfd => hdone hfd hg.balanced.settled

/-- A change that touches no reference. -/
theorem Good.untouched (hg : Good (s, l)) (hobjects : s'.objects = s.objects)
    (hnext : s'.next = s.next) (hweaks : s'.mPostWriteWeakDerefs = s.mPostWriteWeakDerefs)
    (hstrongs : s'.mPostWriteStrongDerefs = s.mPostWriteStrongDerefs)
    (hpushed : s'.pushed = s.pushed) (hreleased : s'.released = s.released)
    (hout : s'.mOut = s.mOut) : Good (s', l) := by
  have htemps : l.withTemps s' = l.withTemps s := Totals.withTemps_congr l hweaks hstrongs
  have hpending : s'.pending = s.pending := by
    unfold pending
    rw [hweaks, hstrongs]
  refine ⟨?_, ?_, ⟨fun x => ?_, fun h => ?_⟩, fun a ha => ?_, fun a ha => ?_⟩
  · show 0 < s'.next
    rw [hnext]
    exact hg.first
  · rw [htemps]
    exact hg.has.congr hobjects
  · rw [hpushed, hreleased, hpending]
    exact hg.balanced.once x
  · rw [hpending]
    exact hg.balanced.settled (hout.symm.trans h)
  · rw [hobjects, hpushed]
    exact hg.unused a (by rw [← hnext]; exact ha)
  · have hlive : (s'.objects a).binder_handle.isSome = true := ha
    rw [hobjects] at hlive ⊢
    exact hg.modes a hlive

/-- Every operation keeps the invariant. -/
theorem Outcome.good {op : Op} {ok : Bool} (hg : Good (s, l)) (h : Outcome s l op ok s') :
    Good (s', l.after ok op) := by
  cases h with
  | effect _ hledger h => exact hg.effect h hledger
  | born h => exact (Good.allocated hg).effect h fun _ _ => ⟨rfl, rfl⟩
  | talks hop h =>
    have hflushed := hg.flushed (Talks.flushed hg.has h)
    rcases hop with rfl | rfl
    · exact hflushed
    · exact hflushed
  | looper => exact hg.untouched rfl rfl rfl rfl rfl rfl rfl
  | serving => exact hg.untouched rfl rfl rfl rfl rfl rfl rfl

theorem Outcome.drained {op : Op} {ok : Bool} (h : Outcome s l op ok s') (hop : drains op)
    (hopen : 0 ≤ s.mDriverFD) : s'.pending = [] := by
  cases h with
  | effect hnot => exact absurd hop hnot
  | talks _ _ hdrained => exact hdrained hopen
  | born => rcases hop with hop | hop <;> cases hop
  | looper => rcases hop with hop | hop <;> cases hop
  | serving => rcases hop with hop | hop <;> cases hop

/-- A step of a run with its answer. -/
theorem step.spec (op : Op) {x : Process × Totals} (hg : Good x) (hc : Respects op x) :
    ∃ ok s', step n op x = .ok (ok, (s', x.2.after ok op)) ∧ Outcome x.1 x.2 op ok s' := by
  obtain ⟨ok, s', hrun, houtcome⟩ := wp_never_iff.mp (perform.spec (n := n) op hg hc)
  refine ⟨ok, s', ?_, houtcome⟩
  unfold step
  rw [hrun]

/-! ## The law of temporary references -/

/-- An operation returns, every temporary reference waits or was released once, none waits
without a command, and none after the driver took the commands. The counts of every object are the
references of its users and those that wait on it, so what was released was given back. -/
def ReleasesOnce (op : Op) (x : Process × Totals)
    (r : Except Fault (Bool × (Process × Totals))) : Prop :=
  ∃ ok s' l', r = .ok (ok, (s', l')) ∧
    (∀ temp, s'.pushed.count temp = s'.released.count temp + s'.pending.count temp) ∧
    (s'.mOut = [] → s'.pending = []) ∧
    (drains op → 0 ≤ x.1.mDriverFD → s'.pending = []) ∧
    Has (l'.withTemps s') s'

/-- In every run in which the users hold what waits whenever a thread that must flush hands its
commands to the driver, each temporary reference is released exactly once. -/
theorem temporary_references_are_released_once (n : Nat) (fd : Int) (context : Nat)
    (ops : List Op) (hops : Allowed (step n) Respects ops (start fd context, Totals.none)) :
    Always (step n) ReleasesOnce ops (start fd context, Totals.none) := by
  refine always_of_inv Good ?_ ?_ (start_good fd context) hops
  · intro op x hg hc
    obtain ⟨ok, s', hrun, houtcome⟩ := step.spec (n := n) op hg hc
    have hgood := houtcome.good hg
    exact ⟨ok, s', _, hrun, hgood.balanced.once, hgood.balanced.settled, houtcome.drained,
      hgood.has⟩
  · intro op x b x' hg hc hrun
    obtain ⟨ok, s', hrun', houtcome⟩ := step.spec (n := n) op hg hc
    rw [hrun'] at hrun
    cases hrun
    exact houtcome.good hg

/-- A thread that serves a call keeps a reference on a proxy that the handler holds on to. -/
theorem temporary_references_are_released_once_for_a_handler :
    Always (step 4) ReleasesOnce
      [.newProxy 5, .setServing (some 1), .incStrong 1, .setServing none, .flushCommands,
        .decStrong 1] (start 3 0, Totals.none) :=
  temporary_references_are_released_once 4 3 0 _ (by decide +kernel)

/-- The handler drops the proxy before the thread hands its commands over: the release of the
temporary reference flushes, and the flush releases it again. -/
theorem a_dropped_proxy_is_released_twice :
    ¬∀ (fd : Int) (context : Nat) (ops : List Op),
      Allowed (step 4) Disciplined ops (start fd context, Totals.none) →
        Always (step 4) ReleasesOnce ops (start fd context, Totals.none) := by
  intro h
  have hrun := h 3 0 [.newProxy 5, .setServing (some 1), .incStrong 1, .decStrong 1,
    .setServing none, .flushCommands] (by decide +kernel)
  have hok : Always (step 4) (fun _ _ r => r.isOk = true) _ _ := hrun.imp fun op x hx => by
    obtain ⟨ok, s', l', hr, -⟩ := hx
    rw [hr]
    rfl
  exact absurd hok (by decide +kernel)

end Process

end system_binder
