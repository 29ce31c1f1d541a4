-- The dump transaction of a binder. Its loop goes on for as many arguments as the peer says, as
-- long as there are bytes: a read that fails adds the string that was read before, and may leave
-- the position where it was.
import SystemBinder.ParcelPeer

open prog memory

namespace system_binder

namespace Parcel

variable {W : Type}

/-! ## What looking for an object moves -/

theorem loadObject.moves (i : Nat) : Moves anyFault (loadObject i : Prog (Ctx W) Fault _) := by
  intro c r
  unfold wp loadObject
  cases c.parcel.mObjects with
  | none => trivial
  | some t =>
    dsimp only
    cases t.cells[i]? with
    | none => trivial
    | some o => exact Moved.refl r.pos

theorem searchForward.moves (dpos n opos : Nat) :
    Moves anyFault (searchForward dpos n opos : Prog (Ctx W) Fault _) := by
  induction n generalizing opos with
  | zero => exact Moves.pure _
  | succ n ih => exact (loadObject.moves opos).bind fun _ => (ih _).ite (Moves.pure _)

theorem searchBackward.moves (dpos opos : Nat) :
    Moves anyFault (searchBackward dpos opos : Prog (Ctx W) Fault _) := by
  induction opos with
  | zero => exact Moves.pure _
  | succ opos ih => exact (loadObject.moves _).bind fun _ => ih.ite (Moves.pure _)

theorem foundAt.moves (dpos opos : Nat) {orElse : Prog (Ctx W) Fault Bool}
    (h : Moves anyFault orElse) : Moves anyFault (foundAt dpos opos orElse) := by
  have hhint : Moves anyFault
      (update fun p => { p with mNextObjectHint := opos + 1 } : Prog (Ctx W) Fault Unit) :=
    fun _ r => ⟨rfl, rfl, rfl, rfl, rfl, rfl, rfl, r.pos⟩
  exact (loadObject.moves opos).bind fun _ => (hhint.bind fun _ => Moves.pure _).ite h

theorem findFrom.moves (dpos opos : Nat) :
    Moves anyFault (findFrom dpos opos : Prog (Ctx W) Fault _) :=
  foundAt.moves dpos opos
    ((searchBackward.moves dpos opos).bind fun _ => foundAt.moves dpos _ (Moves.pure _))

theorem findObject.moves (dpos : Nat) :
    Moves anyFault (findObject dpos : Prog (Ctx W) Fault _) := by
  refine Moves.thisParcel.bind fun p => ?_
  apply (Moves.pure _).ite
  apply Moves.ite
  · exact (searchForward.moves _ _ _).bind fun _ => findFrom.moves _ _
  · exact findFrom.moves _ _

theorem readObject.moves (nullMetaData : Bool) :
    Moves anyFault (readObject nullMetaData : Prog (Ctx W) Fault _) := by
  intro c r
  unfold readObject
  simp only [wp_bind, wp_thisParcel, r.sz_pos (n := FLAT_SIZE) (by decide)]
  rw [wp_ite]
  refine ⟨fun hin => ?_, fun _ => Moved.refl r.pos⟩
  have hm := r.moved_skip (n := FLAT_SIZE) (by decide) hin
  rw [wp_bind, wp_loadData (Nat.le_trans hin r.data)]
  simp only [wp_bind, wp_update, wp_ite, wp_pure]
  refine ⟨fun _ => hm, fun _ => ?_⟩
  refine wp_imp (findObject.moves _ _ (hm.readable r)) fun found c' h => ?_
  exact ⟨fun _ => hm.trans h, fun _ => hm.trans h⟩

end Parcel

/-- A string of `args`, with the status of the read that it comes from. -/
structure Argument where
  status : Int
  string : BinderString
deriving DecidableEq

namespace BBinder

open Parcel

variable {W : Type} {c : Ctx W} {E : Fault → Prop} {args : List Argument} {str : BinderString}
  {n : Nat}

/-! ## The transaction -/

theorem length_zeros :
    (List.replicate STRING_INIT_CAPACITY (0 : UInt8)).length = STRING_INIT_CAPACITY :=
  List.length_replicate

/-- What `zalloc(sizeof(String))` gives. -/
def zeroed : BinderString where
  mData := List.replicate STRING_INIT_CAPACITY 0
  room := length_zeros
  mSize := 0
  mCapacity := 0

/-- The loop of `BBinder_onTransact` over `n` more arguments. `args.add` keeps a copy of `str`,
whatever the read says. -/
def collectArgs (str : BinderString) (args : List Argument) :
    Nat → Prog (Ctx W) Fault (List Argument)
  | 0 => pure args
  | n + 1 => do
    let avail ← dataAvail
    if avail > 0 then do
      let (status, str) ← readString16_to str
      let pstr ← zeroed.dup str
      collectArgs str (args ++ [⟨status, pstr⟩]) n
    else pure args

/-- What stands before the arguments: `fd` and `argc`. -/
def readArgc : Prog (Ctx W) Fault (Int × BitVec 32) := do
  let fd ← readFileDescriptor
  let argc ← indeterminate
  let (_, argc) ← readInt32 argc
  pure (fd, argc)

/-- All that `BBinder_onTransact` reads for `DUMP_TRANSACTION`. -/
def readDump : Prog (Ctx W) Fault (Int × List Argument) := do
  let (fd, argc) ← readArgc
  let str ← Status.indeterminateString
  let args ← collectArgs str [] argc.toInt.toNat
  pure (fd, args)

/-- `BBinder_onTransact` for `DUMP_TRANSACTION` -/
def onTransactDump (dump : Int → List BinderString → Prog W Fault Int) :
    Prog (Ctx W) Fault Int := do
  let (fd, args) ← readDump
  outside (dump fd (args.map Argument.string))

/-- `dump` gets the strings that were collected. -/
theorem onTransactDump_of_read {dump : Int → List BinderString → Prog W Fault Int} {fd : Int}
    {c' : Ctx W} (hrun : readDump c = .ok ((fd, args), c')) :
    onTransactDump dump c = outside (dump fd (args.map Argument.string)) c' := by
  unfold onTransactDump
  show (readDump c >>= _) = _
  rw [hrun]
  rfl

/-! ## What it collects -/

/-- There are at most as many arguments as there are words left, and each was read. -/
def CollectsRight (p : Parcel) (args : List Argument) : Prop :=
  args.length ≤ avail p / 4 ∧ ∀ a ∈ args, a.status = STATUS_OK

/-- The parcel behind the string at its position. -/
def pastString (p : Parcel) : Parcel := ahead (4 + padSize ((stringLength p).toNat + 1)) p

/-- Through `n` turns a whole string stands at the position, unless the data ends before. -/
def WholeStrings : Nat → Parcel → Prop
  | 0, _ => True
  | n + 1, p => avail p = 0 ∨ StringInside p ∧ WholeStrings n (pastString p)

instance decidableWholeStrings : ∀ n p, Decidable (WholeStrings n p)
  | 0, _ => isTrue trivial
  | n + 1, p =>
    have := decidableWholeStrings n (pastString p)
    inferInstanceAs (Decidable (avail p = 0 ∨ StringInside p ∧ WholeStrings n (pastString p)))

instance (p : Parcel) (args : List Argument) : Decidable (CollectsRight p args) :=
  inferInstanceAs (Decidable (_ ∧ _))

/-- A whole string takes two words or more. -/
theorem avail_pastString {p : Parcel} (h : StringInside p) : avail (pastString p) + 4 ≤ avail p := by
  have hinside := h.2.2.2
  unfold avail pastString Parcel.ahead
  dsimp only
  omega

theorem readable_pastString {p : Parcel} (r : Readable p) (h : StringInside p) :
    Readable (pastString p) := by
  apply r.ahead
  have hinside := h.2.2.2
  omega

/-- What the turns of the loop add, and when all of it was read. -/
structure Collected (n : Nat) (p : Parcel) (more : List Argument) : Prop where
  few : WholeStrings n p → more.length ≤ avail p / 4
  read : WholeStrings n p ↔ ∀ a ∈ more, a.status = STATUS_OK

theorem Collected.nothing {p : Parcel} (h : WholeStrings n p) : Collected n p [] :=
  ⟨fun _ => Nat.zero_le _, fun _ => by simp, fun _ => h⟩

/-- A turn that reads a whole string. -/
theorem Collected.whole {p : Parcel} {more : List Argument} {a : Argument} (hin : StringInside p)
    (ha : a.status = STATUS_OK) (h : Collected n (pastString p) more) :
    Collected (n + 1) p (a :: more) := by
  have hshorter := avail_pastString hin
  have hsome : avail p ≠ 0 := by omega
  have hturn : WholeStrings (n + 1) p ↔ WholeStrings n (pastString p) := by
    simp [WholeStrings, hsome, hin]
  constructor
  · intro hw
    have hfew := h.few (hturn.mp hw)
    rw [List.length_cons]
    omega
  · rw [hturn, h.read]
    simp [ha]

/-- A turn that reads none. -/
theorem Collected.torn {p : Parcel} {more : List Argument} {a : Argument} (hsome : avail p ≠ 0)
    (hout : ¬StringInside p) (ha : a.status ≠ STATUS_OK) : Collected (n + 1) p (a :: more) := by
  have hturn : ¬WholeStrings (n + 1) p := by simp [WholeStrings, hsome, hout]
  constructor
  · exact fun hw => absurd hw hturn
  · simp [hturn, ha]

theorem dup_any {s t : BinderString} {σ : Type} {w : σ} {Q : BinderString → σ → Prop}
    (h : ∀ u, Q u w) : wp (s.dup t) Q (fun _ => True) w := by
  unfold BinderString.dup
  split
  · exact h _
  · trivial

theorem collectArgs.spec (r : Readable c.parcel) :
    wp (collectArgs str args n) (fun collected _ =>
      ∃ more, collected = args ++ more ∧ Collected n c.parcel more) (fun _ => True) c := by
  induction n generalizing c str args with
  | zero => exact ⟨[], (List.append_nil _).symm, .nothing trivial⟩
  | succ n ih =>
    unfold collectArgs
    rw [wp_bind, dataAvail.spec r]
    split
    · trivial
    rw [wp_ite]
    constructor
    · intro hsome
      have hsome : avail c.parcel ≠ 0 := Nat.pos_iff_ne_zero.mp hsome
      rw [wp_bind, readString16_to.spec r]
      by_cases hin : StringInside c.parcel
      · rw [if_pos hin]
        split
        · rw [wp_bind]
          apply dup_any
          intro pstr
          have hpast : skip (padSize ((stringLength c.parcel).toNat + 1)) (skip 4 c.parcel) =
              pastString c.parcel := hin.skip_eq r
          have hnext := readable_pastString r hin
          rw [← hpast] at hnext
          refine wp_imp (ih (c := (c.mapHeap Heap.nextLocal).mapParcel fun p => skip _ (skip 4 p))
            hnext) ?_
          rintro collected c' ⟨more, rfl, h⟩
          rw [Ctx.parcel_mapParcel, Ctx.parcel_mapHeap, hpast] at h
          exact ⟨⟨STATUS_OK, pstr⟩ :: more, by simp, h.whole hin rfl⟩
        · trivial
      · rw [if_neg hin, wp_bind]
        apply dup_any
        intro pstr
        have hnext : Readable (if c.parcel.mDataPos + 4 ≤ c.parcel.mDataSize
            then skip 4 c.parcel else c.parcel) := by
          split
          · exact r.skip (by decide) ‹_›
          · exact r
        refine wp_imp (ih hnext) ?_
        rintro collected c' ⟨more, rfl, -⟩
        have hfailed : STATUS_BAD_VALUE ≠ STATUS_OK := by decide
        exact ⟨⟨STATUS_BAD_VALUE, pstr⟩ :: more, by simp, .torn hsome hin hfailed⟩
    · intro hnone
      exact ⟨[], (List.append_nil _).symm, .nothing (.inl (by omega))⟩

/-! ## What stands before the arguments -/

theorem readArgc.moves : Moves anyFault (readArgc : Prog (Ctx W) Fault _) := by
  have hfd : Moves anyFault (readFileDescriptor : Prog (Ctx W) Fault Int) := by
    refine (readObject.moves true).bind fun flat => ?_
    cases flat with
    | none => exact Moves.pure _
    | some flat => exact (Moves.pure _).ite (Moves.pure _)
  exact hfd.bind fun _ => Moves.indeterminate.bind fun argc =>
    (readInt32.moves argc).bind fun _ => Moves.pure _

/-! ## The law -/

/-- One to three bytes are a torn argument that is never passed: it is added in every turn. -/
theorem collectArgs.spec_torn (r : Readable c.parcel) (hsome : avail c.parcel ≠ 0)
    (hshort : avail c.parcel < 4) (hstr : str.mSize ≤ STRING_INIT_CAPACITY) :
    wp (collectArgs str args n) (fun collected _ => collected = args ++
      List.replicate n ⟨STATUS_BAD_VALUE, zeroed.withBytesOf str hstr⟩) never c := by
  have hpos := r.pos
  have h4 : ¬c.parcel.mDataPos + 4 ≤ c.parcel.mDataSize := by
    unfold avail at hshort
    omega
  have hout : ¬StringInside c.parcel := fun h => h4 h.1
  have hsmall : ¬INT32_MAX < avail c.parcel := by
    unfold INT32_MAX
    omega
  induction n generalizing c args with
  | zero => exact (List.append_nil _).symm
  | succ n ih =>
    unfold collectArgs
    rw [wp_bind, dataAvail.spec r, if_neg hsmall, if_pos (by omega), wp_bind,
      readString16_to.spec r, if_neg hout]
    simp only [if_neg h4]
    rw [wp_bind, BinderString.dup.spec hstr]
    refine wp_imp (ih (c := (c.mapHeap Heap.nextLocal).mapParcel fun p => p) r hsome hshort hpos
      h4 hout hsmall) ?_
    rintro collected c' rfl
    rw [List.append_assoc]
    rfl

/-- With one to three bytes behind `argc`, as many strings are collected as it says. -/
theorem readDump_torn {c₁ : Ctx W} {fd : Int} {argc : BitVec 32}
    (hbefore : readArgc c = .ok ((fd, argc), c₁)) (r : Readable c₁.parcel)
    (hsome : avail c₁.parcel ≠ 0) (hshort : avail c₁.parcel < 4)
    (hsize : (c₁.heap.leftover c₁.heap.locals).toNat ≤ STRING_INIT_CAPACITY) :
    ∃ args c', readDump c = .ok ((fd, args), c') ∧ args.length = argc.toInt.toNat := by
  have hread : wp readDump (fun read _ => read.1 = fd ∧ read.2.length = argc.toInt.toNat)
      never c := by
    unfold readDump
    rw [wp_bind, wp_of_ok hbefore, wp_bind]
    unfold Status.indeterminateString
    show wp (collectArgs _ [] argc.toInt.toNat >>= _) _ _ _
    rw [wp_bind]
    refine wp_imp (collectArgs.spec_torn (c := c₁.mapHeap _) r hsome hshort hsize) ?_
    rintro args c' rfl
    exact ⟨rfl, List.length_replicate⟩
  obtain ⟨⟨fd', args⟩, c', hrun, rfl, hlength⟩ := wp_never_iff.mp hread
  exact ⟨args, c', hrun, hlength⟩

end BBinder

end system_binder
