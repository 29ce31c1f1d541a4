-- The strong commands of a handle on a looper thread: over every run they alternate, say
-- whether the process holds the handle, and never meet in one batch.
import SystemBinder.ProxyRuns

open prog

namespace system_binder

namespace Process

variable {l l' t t' : Totals} {s s' : Process} {b n : Nat} {handle : BitVec 32}

/-! ## Lists of commands -/

/-- Commands that say nothing of a handle leave it as it was. -/
theorem track_silent {held : Bool} {cmds : List OutCommand} (hacquire : .BC_ACQUIRE handle ∉ cmds)
    (hrelease : .BC_RELEASE handle ∉ cmds) : track handle held cmds = some held := by
  induction cmds with
  | nil => rfl
  | cons cmd cmds ih =>
    rw [List.mem_cons, not_or] at hacquire hrelease
    have hturn : turn handle held cmd = some held := by
      unfold turn
      rw [if_neg (Ne.symm hacquire.1), if_neg (Ne.symm hrelease.1)]
    show (turn handle held cmd).bind _ = _
    rw [hturn]
    exact ih hacquire.2 hrelease.2

/-- Commands that alternate are as many acquires as releases, but for the one that is held. -/
theorem count_of_track {held held' : Bool} {cmds : List OutCommand}
    (h : track handle held cmds = some held') :
    cmds.count (.BC_ACQUIRE handle) + held.toNat =
      cmds.count (.BC_RELEASE handle) + held'.toNat := by
  induction cmds generalizing held with
  | nil =>
    cases h
    rfl
  | cons cmd cmds ih =>
    rw [List.count_cons, List.count_cons]
    obtain ⟨next, hturn, hrest⟩ := Option.bind_eq_some_iff.mp h
    have hcount := ih hrest
    unfold turn at hturn
    split at hturn
    · rename_i hacquire
      subst hacquire
      cases held with
      | true => cases hturn
      | false =>
        cases hturn
        simp at hcount ⊢
        omega
    · rename_i hacquire
      split at hturn
      · rename_i hrelease
        subst hrelease
        cases held with
        | false => cases hturn
        | true =>
          cases hturn
          simp at hcount ⊢
          omega
      · rename_i hrelease
        cases hturn
        simp [hacquire, hrelease]
        omega

/-- A handle that was released is held no more. -/
theorem held_of_release {held held' : Bool}
    (h : track handle held [.BC_RELEASE handle] = some held') : held' = false := by
  cases held with
  | false => simp [track, turn] at h
  | true => simpa [track, turn] using h.symm

/-- A `BC_ACQUIRE` of the handle stands before a `BC_RELEASE` of it. -/
def Crossed (handle : BitVec 32) (batch : List OutCommand) : Prop :=
  [.BC_ACQUIRE handle, .BC_RELEASE handle].Sublist batch

instance (handle : BitVec 32) (batch : List OutCommand) : Decidable (Crossed handle batch) := by
  unfold Crossed
  infer_instance

theorem Crossed.acquire {batch : List OutCommand} (h : Crossed handle batch) :
    .BC_ACQUIRE handle ∈ batch := h.subset List.mem_cons_self

/-- One more command crosses only as a release. -/
theorem Crossed.of_append {batch : List OutCommand} {cmd : OutCommand}
    (h : Crossed handle (batch ++ [cmd])) :
    Crossed handle batch ∨ (.BC_ACQUIRE handle ∈ batch ∧ cmd = .BC_RELEASE handle) := by
  obtain ⟨first, second, hsplit, hfirst, hsecond⟩ := List.sublist_append_iff.mp h
  rcases List.sublist_singleton.mp hsecond with rfl | rfl
  · left
    rw [List.append_nil] at hsplit
    rw [Crossed, hsplit]
    exact hfirst
  · right
    rw [← List.singleton_append, List.append_singleton_inj] at hsplit
    obtain ⟨rfl, rfl⟩ := hsplit
    exact ⟨hfirst.subset (List.mem_singleton_self _), rfl⟩

/-! ## The invariant -/

/-- The strong commands of the handle of the proxy at `b`, in a process whose references are
those of `t`. -/
structure Orderly (t : Totals) (s : Process) (b : Nat) (handle : BitVec 32) : Prop where
  alternate : track handle false s.queued = some (decide (0 < t.strong b))
  batches : ∀ batch ∈ s.sent, ¬Crossed handle batch
  out : ¬Crossed handle s.mOut
  waits : .BC_ACQUIRE handle ∈ s.mOut → b ∈ s.mPostWriteStrongDerefs

/-- The invariant of the commands. -/
structure Tidy (t : Totals) (s : Process) : Prop where
  parts : s.sent.flatten ++ s.mOut = s.queued
  silent : ∀ handle, Silent s t handle →
    .BC_ACQUIRE handle ∉ s.queued ∧ .BC_RELEASE handle ∉ s.queued
  orderly : ∀ b handle, Alone s t b handle → Orderly t s b handle

/-- What owners and handles there are afterwards, there were before. -/
theorem Alone.before (hsame : s'.fixed = s.fixed)
    (hgrows : ∀ c, t.owned c = true → t'.owned c = true) (h : Alone s' t' b handle) :
    Alone s t b handle ∧ Alone s t' b handle := by
  have hhandle : ∀ c, (s'.objects c).binder_handle = (s.objects c).binder_handle :=
    fun c => congrFun (congrArg Fixed.handles hsame) c
  have hself : (s.objects b).binder_handle = some handle := by
    rw [← hhandle]
    exact h.1
  have hother : ∀ c, c ≠ b → (s.objects c).binder_handle = some handle → t'.owned c = false :=
    fun c hcb hc => h.2 c hcb (by rw [hhandle]; exact hc)
  refine ⟨⟨hself, fun c hcb hc => ?_⟩, hself, hother⟩
  cases howned : t.owned c with
  | false => rfl
  | true =>
    have hnot := hother c hcb hc
    rw [hgrows c howned] at hnot
    cases hnot

theorem Silent.before (hsame : s'.fixed = s.fixed)
    (hgrows : ∀ c, t.owned c = true → t'.owned c = true) (h : Silent s' t' handle) :
    Silent s t handle ∧ Silent s t' handle := by
  have hhandle : ∀ c, (s'.objects c).binder_handle = (s.objects c).binder_handle :=
    fun c => congrFun (congrArg Fixed.handles hsame) c
  have hother : Silent s t' handle := fun c hc => h c (by rw [hhandle]; exact hc)
  refine ⟨fun c hc => ?_, hother⟩
  cases howned : t.owned c with
  | false => rfl
  | true =>
    have hnot := hother c hc
    rw [hgrows c howned] at hnot
    cases hnot

/-- The commands of a move are in order. -/
theorem Tidy.moved {weaks strongs : List Nat} {cmds : List OutCommand} (htidy : Tidy t s)
    (h : Moved t t' s s' weaks strongs cmds) (htold : Told s weaks strongs cmds)
    (htemps : ∀ c, c ∈ s'.mPostWriteStrongDerefs → 0 < t'.strong c) : Tidy t' s' := by
  refine ⟨?_, fun handle hsilent => ?_, fun b handle halone => ?_⟩
  · rw [h.sent, h.mOut, h.queued, ← htidy.parts, List.append_assoc]
  · obtain ⟨hbefore, hafter⟩ := hsilent.before h.same h.books.grows
    have hqueued := htidy.silent handle hbefore
    have hcmds := h.books.silent handle hafter
    rw [h.queued]
    simp only [List.mem_append, not_or]
    exact ⟨⟨hqueued.1, hcmds.1⟩, hqueued.2, hcmds.2⟩
  · obtain ⟨hbefore, hafter⟩ := halone.before h.same h.books.grows
    obtain ⟨halternate, hbatches, hout, hwaits⟩ := htidy.orderly b handle hbefore
    have hbooks := h.books.alternate b handle hafter
    have hstay : b ∈ s.mPostWriteStrongDerefs → b ∈ s'.mPostWriteStrongDerefs := by
      intro hb
      rw [h.strongDerefs]
      exact List.mem_append_left _ hb
    refine ⟨?_, ?_, ?_, ?_⟩
    · rw [h.queued, track_append, halternate]
      exact hbooks
    · rw [h.sent]
      exact hbatches
    · rw [h.mOut]
      rcases htold with ⟨rfl, -, -⟩ | ⟨cmd, rfl, -⟩
      · rw [List.append_nil]
        exact hout
      · intro hcrossed
        rcases hcrossed.of_append with hcrossed | ⟨hacquire, rfl⟩
        · exact hout hcrossed
        · -- the proxy that the driver is still to acquire is held
          have hpos := htemps b (hstay (hwaits hacquire))
          have hnone := held_of_release hbooks
          rw [decide_eq_false_iff_not] at hnone
          exact hnone hpos
    · rw [h.mOut, List.mem_append]
      rintro (hold | hnew)
      · exact hstay (hwaits hold)
      · rcases htold with ⟨rfl, -, -⟩ | ⟨cmd, rfl, -, hkept⟩
        · cases hnew
        · obtain ⟨a, ha, hhandle⟩ := hkept handle (List.mem_singleton.mp hnew).symm
          have hmem : a ∈ s'.mPostWriteStrongDerefs := by
            rw [h.strongDerefs]
            exact List.mem_append_right _ ha
          have howned := h.has.owned (htemps a hmem)
          by_cases hab : a = b
          · rw [← hab]
            exact hmem
          · rw [hafter.2 a hab hhandle] at howned
            cases howned

/-- The commands stay in order when the driver takes them. -/
theorem Tidy.talked {cmds : List OutCommand} (htidy : Tidy (l.withTemps s) s)
    (h : Talked l s s' cmds) : Tidy (l.withTemps s') s' := by
  have hnone : ∀ handle, .BC_ACQUIRE handle ∉ cmds := by
    intro handle hmem
    obtain ⟨handle', hrelease⟩ := h.releases _ hmem
    cases hrelease
  rw [Totals.withTemps_nil h.weakDerefs h.strongDerefs]
  refine ⟨?_, fun handle hsilent => ?_, fun b handle halone => ?_⟩
  · rw [h.sent, h.mOut, h.queued, ← htidy.parts, List.flatten_append, List.flatten_singleton]
  · obtain ⟨hbefore, hafter⟩ := hsilent.before h.same h.books.grows
    have hqueued := htidy.silent handle hbefore
    have hcmds := h.books.silent handle hafter
    rw [h.queued]
    simp only [List.mem_append, not_or]
    exact ⟨⟨hqueued.1, hcmds.1⟩, hqueued.2, hcmds.2⟩
  · obtain ⟨hbefore, hafter⟩ := halone.before h.same h.books.grows
    obtain ⟨halternate, hbatches, hout, hwaits⟩ := htidy.orderly b handle hbefore
    refine ⟨?_, ?_, ?_, ?_⟩
    · rw [h.queued, track_append, halternate]
      exact h.books.alternate b handle hafter
    · rw [h.sent]
      intro batch hbatch
      rcases List.mem_append.mp hbatch with hold | hnew
      · exact hbatches batch hold
      · rw [List.mem_singleton.mp hnew]
        exact hout
    · rw [h.mOut]
      exact fun hcrossed => hnone handle hcrossed.acquire
    · rw [h.mOut]
      exact fun hmem => absurd hmem (hnone handle)

theorem Tidy.talks (htidy : Tidy (l.withTemps s) s) (h : Talks l s s') :
    Tidy (l.withTemps s') s' := by
  induction h with
  | refl => exact htidy
  | tail _ htalked ih =>
    obtain ⟨cmds, htalked⟩ := htalked
    exact ih.talked htalked

/-- An operation of a thread that need not flush keeps the commands in order. -/
theorem Tidy.effect (htidy : Tidy (l.withTemps s) s) (hbusy : s.busy = true)
    (h : Effect l l' s s') : Tidy (l'.withTemps s') s' := by
  unfold Effect at h
  rw [if_pos hbusy] at h
  obtain ⟨weaks, strongs, cmds, hmoved, htold⟩ := h
  refine htidy.moved hmoved htold fun c hc => ?_
  have hcount : 0 < s'.mPostWriteStrongDerefs.count c := List.count_pos_iff.mpr hc
  simp only [Totals.withTemps]
  omega

/-- A new proxy says nothing of strong references. -/
theorem Tidy.allocated (htidy : Tidy (l.withTemps s) s) (hg : Good (s, l)) :
    Tidy (l.withTemps (allocated handle s)) (allocated handle s) := by
  have hnew : ∀ c, c ≠ s.next → (Process.allocated handle s).objects c = s.objects c :=
    fun c hc => Function.update_of_ne hc _ _
  have hnone : (s.objects s.next).binder_handle = none := (hg.unused s.next le_rfl).1
  have hold : ∀ c handle', (s.objects c).binder_handle = some handle' →
      c ≠ s.next ∧ ((Process.allocated handle s).objects c).binder_handle = some handle' := by
    intro c handle' hc
    have hne : c ≠ s.next := by
      intro heq
      rw [heq, hnone] at hc
      cases hc
    exact ⟨hne, by rw [hnew c hne]; exact hc⟩
  have hparts : ∀ cmd, cmd ∉ s.queued → cmd ∉ s.mOut ∧ ∀ batch ∈ s.sent, cmd ∉ batch := by
    intro cmd hcmd
    rw [← htidy.parts, List.mem_append, not_or] at hcmd
    exact ⟨hcmd.2, fun batch hbatch hmem => hcmd.1 (List.mem_flatten.mpr ⟨batch, hbatch, hmem⟩)⟩
  refine ⟨htidy.parts, fun handle' hsilent => ?_, fun b handle' halone => ?_⟩
  · exact htidy.silent handle' fun c hc => hsilent c (hold c handle' hc).2
  · by_cases hb : b = s.next
    · have hsilent : Silent s (l.withTemps s) handle' := by
        intro c hc
        obtain ⟨hne, hc'⟩ := hold c handle' hc
        exact halone.2 c (by rw [hb]; exact hne) hc'
      obtain ⟨hacquire, hrelease⟩ := htidy.silent handle' hsilent
      have hzero : (l.withTemps s).strong b = 0 := (hg.nothing (le_of_eq hb.symm)).2.1
      refine ⟨?_, fun batch hbatch hcrossed => ?_, fun hcrossed => ?_, fun hmem => ?_⟩
      · show track handle' false s.queued = some (decide (0 < (l.withTemps s).strong b))
        rw [track_silent hacquire hrelease, hzero]
        rfl
      · exact (hparts _ hacquire).2 batch hbatch hcrossed.acquire
      · exact (hparts _ hacquire).1 hcrossed.acquire
      · exact absurd hmem (hparts _ hacquire).1
    · have hself : (s.objects b).binder_handle = some handle' := by
        rw [← hnew b hb]
        exact halone.1
      obtain ⟨halternate, hbatches, hout, hwaits⟩ := htidy.orderly b handle'
        ⟨hself, fun c hcb hc => halone.2 c hcb (hold c handle' hc).2⟩
      exact ⟨halternate, hbatches, hout, hwaits⟩

/-- An operation of a looper keeps the commands in order. -/
theorem Outcome.tidy {op : Op} {ok : Bool} (hg : Good (s, l)) (htidy : Tidy (l.withTemps s) s)
    (hlooper : s.mIsLooper = true) (h : Outcome s l op ok s') :
    Tidy ((l.after ok op).withTemps s') s' := by
  have hbusy : s.busy = true := by
    unfold busy
    rw [hlooper]
    rfl
  cases h with
  | effect _ _ h => exact htidy.effect hbusy h
  | born h => exact (htidy.allocated hg).effect hbusy h
  | talks hop h =>
    rcases hop with rfl | rfl
    · exact htidy.talks h
    · exact htidy.talks h
  | looper =>
    refine ⟨htidy.parts, htidy.silent, fun b handle halone => ?_⟩
    obtain ⟨halternate, hbatches, hout, hwaits⟩ := htidy.orderly b handle halone
    exact ⟨halternate, hbatches, hout, hwaits⟩
  | serving =>
    refine ⟨htidy.parts, htidy.silent, fun b handle halone => ?_⟩
    obtain ⟨halternate, hbatches, hout, hwaits⟩ := htidy.orderly b handle halone
    exact ⟨halternate, hbatches, hout, hwaits⟩

/-- A looper stays one until it is told otherwise. -/
theorem Outcome.looper_stays {op : Op} {ok : Bool} (hop : op ≠ .setLooper false)
    (hlooper : s.mIsLooper = true) (hg : Good (s, l)) (h : Outcome s l op ok s') :
    s'.mIsLooper = true := by
  cases h with
  | effect _ _ h => exact (congrArg Fixed.mIsLooper h.same).trans hlooper
  | born h => exact (congrArg Fixed.mIsLooper h.same).trans hlooper
  | talks _ h => exact (congrArg Fixed.mIsLooper (Talks.flushed hg.has h).same).trans hlooper
  | looper looper =>
    cases looper with
    | true => rfl
    | false => exact absurd rfl hop
  | serving => exact hlooper

/-! ## The law of the commands -/

/-- The strong references on an object. -/
def strongCount (r : WeakrefImpl) : Nat :=
  if r.mStrong = INITIAL_STRONG_VALUE then 0 else r.mStrong.toNat

/-- The proxy at `b` has the handle, and no other proxy of it was ever owned. -/
def OnlyProxy (s : Process) (b : Nat) (handle : BitVec 32) : Prop :=
  (s.objects b).binder_handle = some handle ∧ ∀ c, c ≠ b →
    (s.objects c).binder_handle = some handle → (s.objects c).refs.mStrong = INITIAL_STRONG_VALUE

/-- The strong commands of the handle alternate, the driver holds the handle for the process
exactly while the proxy has a strong reference, and no batch acquires it and releases it after. -/
def InOrder (s : Process) (b : Nat) (handle : BitVec 32) : Prop :=
  let strong := strongCount (s.objects b).refs
  track handle false s.queued = some (decide (0 < strong)) ∧
    s.queued.count (.BC_ACQUIRE handle) =
      s.queued.count (.BC_RELEASE handle) + (if 0 < strong then 1 else 0) ∧
    ∀ batch ∈ s.sent, ¬Crossed handle batch

/-- An operation returns, and the commands of each handle are in order. -/
def Alternates (_ : Op) (_ : Process × Totals)
    (r : Except Fault (Bool × (Process × Totals))) : Prop :=
  ∃ ok s' l', r = .ok (ok, (s', l')) ∧
    ∀ b handle, OnlyProxy s' b handle → InOrder s' b handle

/-- The thread stays a looper. -/
def OnLooper (op : Op) (x : Process × Totals) : Prop :=
  Disciplined op x ∧ op ≠ .setLooper false

instance (op : Op) (x : Process × Totals) : Decidable (OnLooper op x) := by
  unfold OnLooper
  infer_instance

/-- A looper thread of a process without proxies. -/
def looper (fd : Int) (context : Nat) : Process := { start fd context with mIsLooper := true }

theorem Has.strongCount (h : Has t s) : strongCount (s.objects b).refs = t.strong b := by
  have hsmall := h.small b
  unfold Process.strongCount
  rw [h.refs b]
  cases howned : t.owned b with
  | false =>
    rw [h.fresh b howned, if_pos]
    simp [counts, strongWord, Totals.count, howned]
  | true =>
    rw [Totals.count_of_owned howned]
    have hword : (counts (s.objects b).refs.mFlags (some (t.strong b))
        (t.strong b + t.weak b)).mStrong ≠ INITIAL_STRONG_VALUE := ofNat_ne_initial (by omega)
    rw [if_neg hword]
    show (BitVec.ofNat 32 (t.strong b)).toNat = t.strong b
    rw [BitVec.toNat_ofNat, Nat.mod_eq_of_lt (by omega)]

theorem Has.never_owned (h : Has t s)
    (hinitial : (s.objects b).refs.mStrong = INITIAL_STRONG_VALUE) : t.owned b = false := by
  have hsmall := h.small b
  cases howned : t.owned b with
  | false => rfl
  | true =>
    rw [h.refs b, Totals.count_of_owned howned] at hinitial
    exact absurd hinitial (ofNat_ne_initial (by omega))

theorem Tidy.in_order (htidy : Tidy t s) (h : Has t s) (honly : OnlyProxy s b handle) :
    InOrder s b handle := by
  have halone : Alone s t b handle :=
    ⟨honly.1, fun c hcb hc => h.never_owned (honly.2 c hcb hc)⟩
  obtain ⟨halternate, hbatches, -, -⟩ := htidy.orderly b handle halone
  have hcount := count_of_track halternate
  unfold InOrder
  rw [h.strongCount]
  refine ⟨halternate, ?_, hbatches⟩
  by_cases hpos : 0 < t.strong b
  · rw [if_pos hpos]
    simpa [hpos] using hcount
  · rw [if_neg hpos]
    simpa [hpos] using hcount

theorem looper_good (fd : Int) (context : Nat) : Good (looper fd context, Totals.none) :=
  (start_good fd context).untouched rfl rfl rfl rfl rfl rfl rfl

theorem looper_tidy (fd : Int) (context : Nat) :
    Tidy (Totals.none.withTemps (looper fd context)) (looper fd context) where
  parts := rfl
  silent := by simp [looper, start]
  orderly := by
    intro b handle halone
    have hnone : (none : Option (BitVec 32)) = some handle := halone.1
    cases hnone

theorem OnLooper.respects {op : Op} {x : Process × Totals} (h : OnLooper op x)
    (hlooper : x.1.mIsLooper = true) : Respects op x := by
  refine ⟨h.1, fun _ => Or.inr (Or.inl ?_)⟩
  unfold busy
  rw [hlooper]
  rfl

/-- On a looper thread, in every run whose counts stay below `MAX_COUNT`, the strong commands
of a handle are in order. -/
theorem strong_commands_alternate (n : Nat) (fd : Int) (context : Nat) (ops : List Op)
    (hops : Allowed (step n) OnLooper ops (looper fd context, Totals.none)) :
    Always (step n) Alternates ops (looper fd context, Totals.none) := by
  refine always_of_inv (fun x => Good x ∧ Tidy (x.2.withTemps x.1) x.1 ∧ x.1.mIsLooper = true)
    ?_ ?_ ⟨looper_good fd context, looper_tidy fd context, rfl⟩ hops
  · rintro op x ⟨hg, htidy, hlooper⟩ hc
    obtain ⟨ok, s', hrun, houtcome⟩ := step.spec (n := n) op hg (hc.respects hlooper)
    exact ⟨ok, s', _, hrun, fun b handle honly =>
      (houtcome.tidy hg htidy hlooper).in_order (houtcome.good hg).has honly⟩
  · rintro op x ok x' ⟨hg, htidy, hlooper⟩ hc hrun
    obtain ⟨ok', s', hrun', houtcome⟩ := step.spec (n := n) op hg (hc.respects hlooper)
    rw [hrun'] at hrun
    cases hrun
    exact ⟨houtcome.good hg, houtcome.tidy hg htidy hlooper,
      houtcome.looper_stays hc.2 hlooper hg⟩

/-- Two users share a proxy, and one comes back by force after the last went. -/
theorem strong_commands_alternate_for_two_users :
    Always (step 4) Alternates [.newProxy 5, .incStrong 1, .attemptIncStrong 1, .talkWithDriver,
      .decStrong 1, .decStrong 1, .talkWithDriver, .forceIncStrong 1] (looper 3 0, Totals.none) :=
  strong_commands_alternate 4 3 0 _ (by decide +kernel)

/-! ## Without the bound -/

/-- The users give back what they hold, however many references they take. -/
def MatchedOnLooper (op : Op) (x : Process × Totals) : Prop :=
  Matched op x ∧ op ≠ .setLooper false

/-- A proxy with `m` strong references on a looper, whose driver holds the handle. -/
structure Climbs (m : Nat) (x : Process × Totals) : Prop where
  refs : ∃ f w, (x.1.objects 1).refs = counts f (some m) w ∧ w + 2 ^ 28 < 2 ^ 30 + m
  handle : (x.1.objects 1).binder_handle = some 5
  others : ∀ c, c ≠ 1 → (x.1.objects c).binder_handle = none
  looper : x.1.mIsLooper = true
  users : x.2.owned 1 = true ∧ 0 < x.2.strong 1
  queued : track 5 false x.1.queued = some true

variable {m : Nat} {x : Process × Totals}

theorem Climbs.matched (h : Climbs m x) : MatchedOnLooper (.incStrong 1) x := by
  refine ⟨⟨?_, Or.inr (Nat.add_pos_left h.users.2 _)⟩, by simp⟩
  unfold Live
  rw [h.handle]
  rfl

/-- One more reference, as long as the count is not the initial value. -/
theorem Climbs.next_step (h : Climbs m x) (hpos : 0 < m) (hm : m < 2 ^ 28) :
    ∃ x', step n (.incStrong 1) x = .ok (true, x') ∧ Climbs (m + 1) x' := by
  obtain ⟨f, w, hrefs, hw⟩ := h.refs
  obtain ⟨d, rfl⟩ : ∃ d, m = d + 1 := ⟨m - 1, by omega⟩
  have hrun : wp (perform (knot (n + 3)) (.incStrong 1))
      (fun ok s' => ok = true ∧ s' = putRefs 1 (counts f (some (d + 2)) (w + 1)) x.1) never x.1 := by
    simp only [perform, wp_bind, wp_pure]
    rw [RefBase.incStrong.spec_owned hrefs hm (by omega)]
    exact ⟨trivial, rfl⟩
  obtain ⟨ok, s', hperform, rfl, rfl⟩ := wp_never_iff.mp hrun
  refine ⟨_, by unfold step; rw [hperform], ?_⟩
  refine ⟨⟨f, w + 1, ?_, by omega⟩, ?_, fun c hc => ?_, h.looper, ?_, h.queued⟩
  · rw [objects_putRefs, if_pos rfl]
  · rw [handle_putRefs]
    exact h.handle
  · rw [handle_putRefs]
    exact h.others c hc
  · show (x.2.addStrong 1).owned 1 = true ∧ 0 < (x.2.addStrong 1).strong 1
    simp [Totals.addStrong]

/-- At the initial value the proxy takes the next reference for its first. -/
theorem Climbs.last_step (h : Climbs (2 ^ 28) x) :
    ¬Alternates (.incStrong 1) x (step n (.incStrong 1) x) := by
  obtain ⟨f, w, hrefs, hw⟩ := h.refs
  have hinitial : (x.1.objects 1).refs = counts f none w := by
    rw [hrefs]
    unfold counts strongWord
    rw [initial_eq]
  have hbusy : x.1.busy = true := by
    unfold busy
    rw [h.looper]
    rfl
  have hrun : wp (perform (knot (n + 3)) (.incStrong 1)) (fun _ s' =>
      s'.queued = x.1.queued ++ [.BC_ACQUIRE 5] ∧
      ∀ c, (s'.objects c).binder_handle = (x.1.objects c).binder_handle) never x.1 := by
    simp only [perform, wp_bind, wp_pure]
    rw [RefBase.incStrong.spec_first hinitial (by omega)]
    show wp (onFirstRef (knot (n + 2)) 1) _ _ (putRefs 1 (counts f (some 1) (w + 1)) x.1)
    unfold onFirstRef
    rw [wp_bind, wp_thisProcess, handle_putRefs, h.handle]
    show wp (incStrongHandle (knot (n + 2)) 5 1) _ _ _
    unfold incStrongHandle keepStrong
    rw [wp_bind, wp_write, wp_bind, flushIfNeeded.spec_busy (by simpa using hbusy),
      if_neg (by decide), wp_bind]
    have hrefs' : (refBase (knot (n + 2)) 1).refs (wrote (.BC_ACQUIRE 5)
        (putRefs 1 (counts f (some 1) (w + 1)) x.1)) = counts f (some (0 + 1)) (w + 1) := by
      show ((putRefs 1 (counts f (some 1) (w + 1)) x.1).objects 1).refs = _
      rw [objects_putRefs, if_pos rfl]
    rw [RefBase.incStrong.spec_owned hrefs' (by decide) (by omega), wp_update]
    refine ⟨rfl, fun c => ?_⟩
    show ((putRefs 1 _ (putRefs 1 _ x.1)).objects c).binder_handle = _
    rw [handle_putRefs, handle_putRefs]
  obtain ⟨ok, s', hperform, hqueued, hhandles⟩ := wp_never_iff.mp hrun
  rintro ⟨ok', s'', l', hstep, horder⟩
  unfold step at hstep
  rw [hperform] at hstep
  cases hstep
  have honly : OnlyProxy s' 1 5 := by
    refine ⟨by rw [hhandles, h.handle], fun c hc hhandle => ?_⟩
    rw [hhandles, h.others c hc] at hhandle
    cases hhandle
  have htrack := (horder 1 5 honly).1
  rw [hqueued, track_append, h.queued] at htrack
  simp [track, turn] at htrack

/-- Enough references reach the initial value. -/
theorem Climbs.not_always {d : Nat} (h : Climbs m x) (hpos : 0 < m) (hm : m + d = 2 ^ 28) :
    Allowed (step n) MatchedOnLooper (List.replicate (d + 1) (.incStrong 1)) x ∧
      ¬Always (step n) Alternates (List.replicate (d + 1) (.incStrong 1)) x := by
  induction d generalizing m x with
  | zero =>
    rw [Nat.add_zero] at hm
    rw [hm] at h
    exact ⟨⟨h.matched, fun _ _ _ => trivial⟩, fun halways => h.last_step halways.1⟩
  | succ d ih =>
    obtain ⟨x', hstep, hnext⟩ := h.next_step (n := n) hpos (by omega)
    obtain ⟨hallowed, hnot⟩ := ih hnext (by omega) (by omega)
    rw [List.replicate_succ]
    refine ⟨⟨h.matched, fun ok y hy => ?_⟩, fun halways => hnot (halways.2 true x' hstep)⟩
    rw [hstep] at hy
    cases hy
    exact hallowed

/-- A new proxy on a looper, and the first reference on it. -/
theorem climbs_from_start : ∃ s₁ s₂ m,
    step 4 (.newProxy 5) (looper 3 0, Totals.none) = .ok (true, (s₁, Totals.none)) ∧
    step 4 (.incStrong 1) (s₁, Totals.none) = .ok (true, (s₂, Totals.none.addStrong 1)) ∧
    MatchedOnLooper (.incStrong 1) (s₁, Totals.none) ∧
    0 < m ∧ m < 2 ^ 20 ∧ Climbs m (s₂, Totals.none.addStrong 1) := by
  have hrun : wp (perform (knot 7) (.newProxy 5)) (fun ok s' =>
      ok = true ∧ Effect Totals.none Totals.none (allocated 5 (looper 3 0)) s') never (looper 3 0) := by
    simp only [perform, wp_bind, wp_pure]
    exact wp_imp (newProxy.effect (n := 5) (looper_good 3 0)) fun _ _ heffect => ⟨trivial, heffect.2⟩
  obtain ⟨ok, s₁, hnew, rfl, heffect⟩ := wp_never_iff.mp hrun
  have hstep₁ : step 4 (.newProxy 5) (looper 3 0, Totals.none) = .ok (true, (s₁, Totals.none)) := by
    unfold step
    rw [hnew]
    rfl
  have hallowed : Allowed (step 4) OnLooper [.newProxy 5, .incStrong 1] (looper 3 0, Totals.none) := by
    decide +kernel
  have hc : OnLooper (.incStrong 1) (s₁, Totals.none) := (hallowed.2 true _ hstep₁).1
  have hgood₁ := (Good.allocated (looper_good 3 0)).effect heffect fun _ _ => ⟨rfl, rfl⟩
  have htidy₁ := ((looper_tidy 3 0).allocated (looper_good 3 0)).effect rfl heffect
  have hlooper₁ : s₁.mIsLooper = true := congrArg Fixed.mIsLooper heffect.same
  have hrun₂ : wp (perform (knot 7) (.incStrong 1)) (fun ok s' =>
      ok = true ∧ Effect Totals.none (Totals.none.addStrong 1) s₁ s') never s₁ := by
    simp only [perform, wp_bind, wp_pure]
    exact wp_imp (incStrong.effect (n := 4) hgood₁.has hc.1.1.2 (lt_maxCount.mp (hc.1.2 1 rfl)))
      fun _ _ heffect => ⟨trivial, heffect⟩
  obtain ⟨ok, s₂, hinc, rfl, heffect₂⟩ := wp_never_iff.mp hrun₂
  have hhandles : ∀ c, (s₂.objects c).binder_handle =
      ((allocated 5 (looper 3 0)).objects c).binder_handle :=
    fun c => congrFun (congrArg Fixed.handles (heffect₂.same.trans heffect.same)) c
  have hgood₂ := heffect₂.has
  have htidy₂ := htidy₁.effect (by unfold busy; rw [hlooper₁]; rfl) heffect₂
  have hothers : ∀ c, c ≠ 1 → (s₂.objects c).binder_handle = none := by
    intro c hc
    have hnew : (allocated 5 (looper 3 0)).objects c = (looper 3 0).objects c :=
      Function.update_of_ne hc _ _
    rw [hhandles, hnew]
    rfl
  have hown : (Totals.none.addStrong 1).owned 1 = true ∧ (Totals.none.addStrong 1).strong 1 = 1 := by
    simp [Totals.addStrong, Totals.none]
  have hpos : 0 < ((Totals.none.addStrong 1).withTemps s₂).strong 1 :=
    Nat.add_pos_left (by rw [hown.2]; omega) _
  have hsmall := hgood₂.small 1
  have halone : Alone s₂ ((Totals.none.addStrong 1).withTemps s₂) 1 5 := by
    refine ⟨by rw [hhandles]; rfl, fun c hc hhandle => ?_⟩
    rw [hothers c hc] at hhandle
    cases hhandle
  refine ⟨s₁, s₂, ((Totals.none.addStrong 1).withTemps s₂).strong 1, hstep₁, ?_,
    ⟨hc.1.1, hc.2⟩, hpos, by omega, ?_⟩
  · unfold step
    rw [hinc]
    rfl
  · have hrefs := hgood₂.refs 1
    rw [Totals.count_of_owned (hgood₂.owned hpos)] at hrefs
    refine ⟨⟨_, _, hrefs, by omega⟩, halone.1, hothers, ?_,
      ⟨hown.1, by rw [hown.2]; omega⟩, ?_⟩
    · exact (congrArg Fixed.mIsLooper heffect₂.same).trans hlooper₁
    · rw [(htidy₂.orderly 1 5 halone).alternate, decide_eq_true hpos]

/-- A proxy with 2 ^ 28 references takes the next one for its first: it acquires the handle a
second time. -/
theorem many_references_acquire_twice :
    ¬∀ ops : List Op, Allowed (step 4) MatchedOnLooper ops (looper 3 0, Totals.none) →
      Always (step 4) Alternates ops (looper 3 0, Totals.none) := by
  intro hclaim
  obtain ⟨s₁, s₂, m, hstep₁, hstep₂, hmatched, hpos, hm, hclimbs⟩ := climbs_from_start
  obtain ⟨hallowed, hnot⟩ := hclimbs.not_always (n := 4) hpos
    (show m + (2 ^ 28 - m) = 2 ^ 28 by omega)
  generalize 2 ^ 28 - m + 1 = d at hallowed hnot
  have halways := hclaim (.newProxy 5 :: .incStrong 1 :: List.replicate d (.incStrong 1)) ?_
  · exact hnot ((halways.2 _ _ hstep₁).2 _ _ hstep₂)
  · refine ⟨⟨trivial, by simp⟩, fun ok x hx => ?_⟩
    rw [hstep₁] at hx
    cases hx
    refine ⟨hmatched, fun ok' x' hx' => ?_⟩
    rw [hstep₂] at hx'
    cases hx'
    exact hallowed

end Process

end system_binder
