-- No file is closed twice for one object of a parcel, unless the parcel lets go of an owned file
-- that came in the copy of a buffer of the driver, or was written over.
import SystemBinder.BinderReturns
import SystemBinder.ParcelFiles

open prog memory

namespace system_binder.Parcel

section

variable {W α : Type} {x : Calls W} {c c' c'' : Ctx (Logged W)}

/-! ## Writes -/

/-- Where the next `n` bytes do not fit, a parcel over a buffer of the driver closes all files, or
nothing comes of it. One with memory of its own closes none. -/
structure Behaves (n : Nat) (c c' : Ctx (Logged W)) : Prop where
  own : c.parcel.mOwner = none → NoneClosed c c'
  lent : c.parcel.mOwner ≠ none → ¬sz (c.parcel.mDataPos + n) ≤ c.parcel.mDataCapacity →
    Declined c c' ∨ ClosedAll c c'

theorem Declined.toClose (h : Declined c c') : toClose c'.parcel = toClose c.parcel := by
  have htable : c'.parcel.table = c.parcel.table := by
    unfold Parcel.table
    rw [h.objects]
  have hcells : c'.parcel.cells = c.parcel.cells := by
    unfold Parcel.cells
    rw [h.data]
  have hlist : listedObjects c'.parcel = listedObjects c.parcel := by
    unfold listedObjects retained flatAt
    rw [htable, hcells, h.objectsSize]
  funext fd
  unfold Parcel.toClose
  rw [h.noneClosed.owner, hlist]

theorem Declined.trans (h : Declined c c') (h' : Declined c' c'') : Declined c c'' where
  noneClosed := noneClosed_frame.trans h.noneClosed h'.noneClosed
  data := h'.data.trans h.data
  objects := h'.objects.trans h.objects
  objectsSize := h'.objectsSize.trans h.objectsSize
  pos := h'.pos.trans h.pos
  capacity := h'.capacity.trans h.capacity

theorem Declined.closedAll (h : Declined c c') (h' : ClosedAll c' c'') : ClosedAll c c'' := by
  refine ⟨h'.owner, fun fd => ?_⟩
  rw [h'.log fd, h.toClose, h.noneClosed.log fd]

theorem ClosedAll.noneClosed (h : ClosedAll c c') (h' : NoneClosed c' c'') : ClosedAll c c'' := by
  refine ⟨h'.owner.trans h.owner, fun fd => ?_⟩
  rw [h'.log fd, h.log fd]

theorem behaves_frame (n : Nat) : Frame (Behaves (W := W) n) fun _ (_ : Fault) => True where
  refl _ := ⟨fun _ => ⟨rfl, fun _ => rfl⟩, fun _ _ => .inl (.same rfl rfl)⟩
  trans {c c' c''} h h' := by
    refine ⟨fun hown => ?_, fun hlent hfull => ?_⟩
    · have hfirst := h.own hown
      exact noneClosed_frame.trans hfirst (h'.own (hfirst.owner.trans hown))
    · rcases h.lent hlent hfull with hdeclined | hclosed
      · have hstill := hdeclined.noneClosed.owner
        rcases h'.lent (by rwa [hstill]) (by rwa [hdeclined.pos, hdeclined.capacity]) with
          hdeclined' | hclosed'
        · exact .inl (hdeclined.trans hdeclined')
        · exact .inr (hdeclined.closedAll hclosed')
      · exact .inr (hclosed.noneClosed (h'.own hclosed.owner))
  stops _ _ := trivial

abbrev KeepsBehaving (n : Nat) (m : Prog (Ctx (Logged W)) Fault α) : Prop :=
  Keeps (Behaves n) (fun _ _ => True) m

/-- A parcel over a buffer of the driver closes no file, or all. -/
structure Settles (c c' : Ctx (Logged W)) : Prop where
  own : c.parcel.mOwner = none → NoneClosed c c'
  lent : c.parcel.mOwner ≠ none → NoneClosed c c' ∨ ClosedAll c c'

theorem NoneClosed.settles (h : NoneClosed c c') : Settles c c' := ⟨fun _ => h, fun _ => .inl h⟩

/-- What is stored once there is room. -/
theorem grown.closes {β : Type} {len : Nat} {f : Prog (Ctx (Logged W)) Fault β} {stop : Int → β}
    (hf : KeepsNoneClosed f) :
    wp (do
      let err ← growData (logged x).toOutside len
      if err = STATUS_OK then f else pure (stop err)) (fun r c' =>
        (c.parcel.mOwner = none → NoneClosed c c') ∧
        (c.parcel.mOwner ≠ none →
          (∃ err, err ≠ STATUS_OK ∧ r = stop err ∧ Declined c c') ∨ ClosedAll c c'))
      (fun _ => True) c := by
  rw [wp_bind]
  cases howner : c.parcel.mOwner with
  | none =>
    apply wp_imp (growData.own howner)
    intro err c₁ hgrown
    split
    · apply wp_imp (hf c₁)
      intro r c₂ hstored
      exact ⟨fun _ => noneClosed_frame.trans hgrown hstored, fun hlent => absurd rfl hlent⟩
    · exact ⟨fun _ => hgrown, fun hlent => absurd rfl hlent⟩
  | some relFunc =>
    apply wp_imp (growData.lent howner)
    rintro err c₁ (⟨hne, hdeclined⟩ | ⟨rfl, hclosed⟩)
    · rw [if_neg hne]
      exact ⟨fun hown => absurd hown (Option.some_ne_none _),
        fun _ => .inl ⟨err, hne, rfl, hdeclined⟩⟩
    · rw [if_pos rfl]
      apply wp_imp (hf c₁)
      intro r c₂ hstored
      exact ⟨fun hown => absurd hown (Option.some_ne_none _),
        fun _ => .inr (hclosed.noneClosed hstored)⟩

theorem grown.settles {β : Type} {len : Nat} {f : Prog (Ctx (Logged W)) Fault β} {stop : Int → β}
    (hf : KeepsNoneClosed f) : Keeps Settles (fun _ _ => True) (do
      let err ← growData (logged x).toOutside len
      if err = STATUS_OK then f else pure (stop err)) := by
  intro c
  apply wp_imp (grown.closes hf)
  rintro r c' ⟨hown, hlent⟩
  refine ⟨hown, fun h => (hlent h).imp_left ?_⟩
  rintro ⟨_, -, -, hdeclined⟩
  exact hdeclined.noneClosed

/-- A write of one part. -/
abbrev KeepsSettled (m : Prog (Ctx (Logged W)) Fault α) : Prop := Keeps Settles (fun _ _ => True) m

/-- A parcel with memory of its own closes no file. -/
def Quietly (c c' : Ctx (Logged W)) : Prop := c.parcel.mOwner = none → NoneClosed c c'

theorem quietly_frame : Frame (Quietly (W := W)) fun _ (_ : Fault) => True where
  refl _ := fun _ => ⟨rfl, fun _ => rfl⟩
  trans h h' := fun hown =>
    noneClosed_frame.trans (h hown) (h' ((h hown).owner.trans hown))
  stops _ _ := trivial

abbrev KeepsQuiet (m : Prog (Ctx (Logged W)) Fault α) : Prop := Keeps Quietly (fun _ _ => True) m

theorem KeepsNoneClosed.settled {m : Prog (Ctx (Logged W)) Fault α} (h : KeepsNoneClosed m) :
    KeepsSettled m := fun c => wp_imp (h c) fun _ _ hu => hu.settles

theorem KeepsNoneClosed.quiet {m : Prog (Ctx (Logged W)) Fault α} (h : KeepsNoneClosed m) :
    KeepsQuiet m := fun c => wp_imp (h c) fun _ _ hu _ => hu

theorem KeepsSettled.quiet {m : Prog (Ctx (Logged W)) Fault α} (h : KeepsSettled m) :
    KeepsQuiet m := fun c => wp_imp (h c) fun _ _ hs => hs.own

theorem KeepsSettled.bind {β : Type} {m : Prog (Ctx (Logged W)) Fault α}
    {f : α → Prog (Ctx (Logged W)) Fault β} (hm : KeepsSettled m)
    (hf : ∀ a, KeepsNoneClosed (f a)) : KeepsSettled (m >>= f) := by
  intro c
  rw [wp_bind]
  apply wp_imp (hm c)
  intro a c₁ hsettled
  apply wp_imp (hf a c₁)
  intro _ c₂ hrest
  exact ⟨fun hown => noneClosed_frame.trans (hsettled.own hown) hrest, fun hlent =>
    (hsettled.lent hlent).imp (noneClosed_frame.trans · hrest) (·.noneClosed hrest)⟩

/-- What begins with a write that does not fit, and stops where it fails. -/
theorem behaves_of_first {n : Nat} {m : Prog (Ctx (Logged W)) Fault Int}
    {f : Int → Prog (Ctx (Logged W)) Fault Int} (hquiet : KeepsQuiet m)
    (hlent : ∀ c : Ctx (Logged W), c.parcel.mOwner ≠ none →
      ¬sz (c.parcel.mDataPos + n) ≤ c.parcel.mDataCapacity →
      wp m (fun r c' => r ≠ STATUS_OK ∧ Declined c c' ∨ ClosedAll c c') (fun _ => True) c)
    (hf : ∀ r, KeepsQuiet (f r)) (hstop : ∀ r, r ≠ STATUS_OK → f r = pure r) :
    KeepsBehaving n (m >>= f) := by
  intro c
  by_cases howner : c.parcel.mOwner = none
  · apply wp_imp (quietly_frame.bind hquiet hf c)
    intro _ c' h
    exact ⟨h, fun h => absurd howner h⟩
  · by_cases hfull : sz (c.parcel.mDataPos + n) ≤ c.parcel.mDataCapacity
    · exact wp_of_all (fun _ _ => ⟨fun h => absurd h howner, fun _ h => absurd hfull h⟩)
        fun _ => trivial
    · rw [wp_bind]
      apply wp_imp (hlent c howner hfull)
      rintro r c₁ (⟨hne, hdeclined⟩ | hclosed)
      · rw [hstop r hne]
        exact ⟨fun h => absurd h howner, fun _ _ => .inl hdeclined⟩
      · apply wp_imp (hf r c₁)
        intro _ c₂ hrest
        exact ⟨fun h => absurd h howner, fun _ _ => .inr (hclosed.noneClosed (hrest hclosed.owner))⟩

theorem writeAligned.settles {bs : List UInt8} :
    KeepsSettled (writeAligned (logged x).toOutside bs) := by
  intro c
  unfold writeAligned
  rw [wp_bind, wp_thisParcel]
  split
  · exact storeAligned.noneClosed.settled c
  · exact grown.settles storeAligned.noneClosed c

/-- Where a word does not fit. -/
theorem writeAligned.lent {bs : List UInt8} (hlent : c.parcel.mOwner ≠ none)
    (hfull : ¬sz (c.parcel.mDataPos + bs.length) ≤ c.parcel.mDataCapacity) :
    wp (writeAligned (logged x).toOutside bs) (fun r c' =>
      r ≠ STATUS_OK ∧ Declined c c' ∨ ClosedAll c c') (fun _ => True) c := by
  unfold writeAligned
  rw [wp_bind, wp_thisParcel, if_neg hfull]
  apply wp_imp (grown.closes storeAligned.noneClosed)
  rintro r c' ⟨-, h⟩
  refine (h hlent).imp_left ?_
  rintro ⟨_, hne, rfl, hdeclined⟩
  exact ⟨hne, hdeclined⟩

theorem writeInt32.behaves {val : BitVec 32} :
    KeepsBehaving 4 (writeInt32 (logged x).toOutside val) := by
  have hpure : writeInt32 (logged x).toOutside val >>= pure = writeInt32 (logged x).toOutside val :=
    bind_pure _
  rw [← hpure]
  exact behaves_of_first writeAligned.settles.quiet
    (fun c hlent hfull => writeAligned.lent hlent (by rwa [length_wordBytes]))
    (fun r => quietly_frame.pure r) fun _ _ => rfl

theorem writeInplace.settles {len : Nat} :
    KeepsSettled (writeInplace (logged x).toOutside len) := by
  intro c
  have hnone : Settles c c := ⟨fun _ => ⟨rfl, fun _ => rfl⟩, fun _ => .inl ⟨rfl, fun _ => rfl⟩⟩
  unfold writeInplace
  split
  · exact hnone
  · rw [wp_bind, wp_thisParcel]
    dsimp only
    split
    · exact hnone
    · split
      · exact claimInplace.noneClosed.settled c
      · exact grown.settles claimInplace.noneClosed c

theorem write.settles {data : List UInt8} :
    KeepsSettled (write (logged x).toOutside data) := by
  unfold write
  refine Keeps.ite (KeepsNoneClosed.settled (noneClosed_frame.pure _))
    (writeInplace.settles.bind fun place => ?_)
  cases place with
  | none => exact noneClosed_frame.bind thisParcel.noneClosed fun _ => noneClosed_frame.pure _
  | some d => exact noneClosed_frame.bind storeData.noneClosed fun _ => noneClosed_frame.pure _

/-- A string is its length, and what comes behind if that was written. -/
theorem writeString16.behaves {str : BinderString} :
    KeepsBehaving 4 (writeString16 (logged x).toOutside (some str)) := by
  have htext : ∀ text : List UInt8, ∀ data : Nat, KeepsNoneClosed (W := W) (do
      storeData data text
      storeData (data + str.mSize) [0]
      pure STATUS_OK) := fun text data =>
    noneClosed_frame.bind storeData.noneClosed fun _ =>
      noneClosed_frame.bind storeData.noneClosed fun _ => noneClosed_frame.pure _
  have hcopy : KeepsNoneClosed (W := W) (str.copyTo str.mSize) := by
    unfold BinderString.copyTo
    exact Keeps.ite (noneClosed_frame.pure _) fun _ => trivial
  unfold writeString16
  refine behaves_of_first writeAligned.settles.quiet
    (fun c hlent hfull => writeAligned.lent hlent (by rwa [length_wordBytes])) (fun r => ?_)
    fun r hne => if_neg hne
  refine Keeps.ite (quietly_frame.bind writeInplace.settles.quiet fun place => ?_)
    (quietly_frame.pure r)
  cases place with
  | none =>
    exact KeepsNoneClosed.quiet
      (noneClosed_frame.bind thisParcel.noneClosed fun _ => noneClosed_frame.pure _)
  | some data =>
    exact KeepsNoneClosed.quiet (noneClosed_frame.bind hcopy fun text => htext text data)

/-! ### Objects, binders and tokens -/

theorem writeObject.settles {val : FlatBinderObject} {nullMetaData : Bool} :
    KeepsSettled (writeObject (logged x).toOutside val nullMetaData) := by
  intro c
  unfold writeObject
  rw [wp_bind, wp_thisParcel]
  dsimp only
  split
  · exact listWithRoom.noneClosed.settled c
  · exact grown.settles listWithRoom.noneClosed c

theorem writeObject.lent {val : FlatBinderObject} {nullMetaData : Bool}
    (hlent : c.parcel.mOwner ≠ none)
    (hfull : ¬sz (c.parcel.mDataPos + FLAT_SIZE) ≤ c.parcel.mDataCapacity) :
    wp (writeObject (logged x).toOutside val nullMetaData) (fun r c' =>
      r ≠ STATUS_OK ∧ Declined c c' ∨ ClosedAll c c') (fun _ => True) c := by
  unfold writeObject
  rw [wp_bind, wp_thisParcel]
  dsimp only
  rw [if_neg hfull]
  apply wp_imp (grown.closes listWithRoom.noneClosed)
  rintro r c' ⟨-, h⟩
  refine (h hlent).imp_left ?_
  rintro ⟨_, hne, rfl, hdeclined⟩
  exact ⟨hne, hdeclined⟩

theorem writeFileDescriptor.settles {fd : BitVec 32} {takeOwnership : Bool} :
    KeepsSettled (writeFileDescriptor (logged x).toOutside fd takeOwnership) := by
  intro c
  rw [writeFileDescriptor_eq, wp_bind]
  apply wp_indeterminateObject
  intro _
  apply wp_imp (writeObject.settles _)
  intro _ c' h
  exact ⟨fun hown => ⟨(h.own hown).owner, (h.own hown).log⟩, fun hlent =>
    (h.lent hlent).imp (fun hu => ⟨hu.owner, hu.log⟩) fun hc => ⟨hc.owner, hc.log⟩⟩

/-- What is asked of a binder closes no file. -/
theorem flatOf.sameLog (binder : BitVec 64) (obj : FlatBinderObject) :
    Keeps SameLog (fun _ _ => True) (flatOf (logged x) binder obj) := by
  have f := sameLog_frame (W := W)
  have hproxy : ∀ bits, Keeps SameLog (fun _ _ => True) (flatProxy (logged x) binder bits obj) := by
    intro bits
    rw [flatProxy_eq]
    exact f.bind (elsewhere.keeps _) fun proxy =>
      Keeps.ite (f.bind (elsewhere.keeps _) fun _ => f.pure _) (f.bind (f.pure _) fun _ => f.pure _)
  have hlocal : ∀ loc bits,
      Keeps SameLog (fun _ _ => True) (flatLocal (logged x) loc bits obj) := by
    intro loc bits
    rw [flatLocal_eq]
    exact f.bind (elsewhere.keeps _) fun _ => f.bind (elsewhere.keeps _) fun _ =>
      f.bind (elsewhere.keeps _) fun _ => f.bind (elsewhere.keeps _) fun _ =>
      f.bind (elsewhere.keeps _) fun _ => f.pure _
  have hobject : ∀ loc bits null, Keeps SameLog (fun _ _ => True) (if binder ≠ 0
      then if loc = 0 then flatProxy (logged x) binder bits obj
        else flatLocal (logged x) loc bits obj
      else pure null) := fun loc bits null =>
    Keeps.ite (Keeps.ite (hproxy bits) (hlocal loc bits)) (f.pure null)
  unfold flatOf
  refine Keeps.ite (f.bind (elsewhere.keeps _) fun loc => ?_) (f.bind (f.pure _) fun loc => ?_)
  all_goals
    refine Keeps.ite (f.bind (elsewhere.keeps _) fun _ => ?_) ?_
    all_goals exact f.bind (elsewhere.keeps _) fun disabled => hobject _ _ _

theorem getRepr.sameLog (binder : BitVec 64) :
    Keeps SameLog (fun _ _ => True) (Stability.getRepr (logged x) binder) := by
  have f := sameLog_frame (W := W)
  unfold Stability.getRepr Stability.holder
  refine Keeps.ite (f.pure _) (f.bind (f.bind (elsewhere.keeps _) fun loc => ?_) fun obj => ?_)
  · exact Keeps.ite (f.pure _) (elsewhere.keeps _)
  · exact elsewhere.keeps _

theorem setRepr.sameLog (binder : BitVec 64) (setting : BitVec 32) (allowDowngrade : Bool) :
    Keeps SameLog (fun _ _ => True)
      (Stability.setRepr (logged x) binder setting allowDowngrade) := by
  have f := sameLog_frame (W := W)
  unfold Stability.setRepr Stability.holder
  refine f.bind (getRepr.sameLog binder) fun rep => Keeps.ite (f.pure _) (Keeps.ite (f.pure _)
    (Keeps.ite (f.pure _) (Keeps.ite (f.pure _) ?_)))
  refine f.bind (f.bind (elsewhere.keeps _) fun loc => ?_) fun obj => ?_
  · exact Keeps.ite (f.pure _) (elsewhere.keeps _)
  · exact f.bind (elsewhere.keeps _) fun _ => f.pure _

theorem finishFlattenBinder.quiet {binder : BitVec 64} :
    KeepsQuiet (finishFlattenBinder (logged x) binder) := by
  unfold finishFlattenBinder Stability.tryMarkCompilationUnit
  refine quietly_frame.bind (KeepsNoneClosed.quiet (outside.noneClosed
    (sameLog_frame.bind (setRepr.sameLog _ _ _) fun _ => sameLog_frame.pure _))) fun _ => ?_
  refine quietly_frame.bind (KeepsNoneClosed.quiet (outside.noneClosed (getRepr.sameLog _)))
    fun rep => ?_
  exact writeAligned.settles.quiet

theorem Declined.behaves {n : Nat} (h : Declined c c') : Behaves n c c' :=
  ⟨fun _ => h.noneClosed, fun _ _ => .inl h⟩

/-- A binder is its object, and its level if that was written. -/
theorem writeStrongBinder.behaves {binder : BitVec 64} :
    KeepsBehaving FLAT_SIZE (writeStrongBinder (logged x) binder) := by
  have f := behaves_frame (W := W) FLAT_SIZE
  unfold writeStrongBinder flattenBinder
  refine f.bind (fun c => Declined.behaves (.same rfl rfl)) fun old =>
    f.bind (fun c => ?_) fun obj => ?_
  · apply wp_imp (wp_outside_keeps (flatOf.sameLog binder old))
    rintro _ c' ⟨hsame, hparcel⟩
    exact Declined.behaves (.same hparcel hsame)
  · refine behaves_of_first writeObject.settles.quiet (fun c => writeObject.lent) (fun r => ?_)
      fun r hne => if_pos hne
    exact Keeps.ite (quietly_frame.pure r) finishFlattenBinder.quiet

theorem updateWorkSourceRequestHeaderPosition.behaves {n : Nat} :
    KeepsBehaving (W := W) n updateWorkSourceRequestHeaderPosition := by
  intro c
  unfold updateWorkSourceRequestHeaderPosition
  rw [wp_bind, wp_thisParcel]
  split
  · exact Declined.behaves ⟨⟨rfl, fun _ => rfl⟩, rfl, rfl, rfl, rfl, rfl⟩
  · exact Declined.behaves (.same rfl rfl)

theorem writeInterfaceToken.behaves {interface : BinderString} :
    KeepsBehaving 4 (writeInterfaceToken (logged x) interface) := by
  have f := behaves_frame (W := W) 4
  have hthread : KeepsBehaving 4 (thisThread (logged x)) :=
    fun c => Declined.behaves (.same rfl rfl)
  unfold writeInterfaceToken
  exact f.bind hthread fun _ => f.bind writeInt32.behaves fun _ =>
    f.bind updateWorkSourceRequestHeaderPosition.behaves fun _ => f.bind hthread fun _ =>
    f.bind writeInt32.behaves fun _ => f.bind writeInt32.behaves fun _ => writeString16.behaves

/-- A write of more than one part begins in the buffer. -/
def BeginsInside (other : OtherWrite) (p : Parcel) : Prop :=
  match other with
  | .item (.value (.string _)) | .token _ => sz (p.mDataPos + 4) ≤ p.mDataCapacity
  | .item (.binder _) | .item .nullBinder => sz (p.mDataPos + FLAT_SIZE) ≤ p.mDataCapacity
  | .item (.value _) | .file _ _ => False

/-- A write to a parcel over a buffer of the driver closes no file, or all. -/
theorem writeOther.settles {other : OtherWrite}
    (hbegins : c.parcel.mOwner ≠ none → ¬BeginsInside other c.parcel) :
    wp (writeOther (logged x) other) (fun _ c' => Settles c c') (fun _ => True) c := by
  have hparts : ∀ {n : Nat} {m : Prog (Ctx (Logged W)) Fault Int}, KeepsBehaving n m →
      (c.parcel.mOwner ≠ none → ¬sz (c.parcel.mDataPos + n) ≤ c.parcel.mDataCapacity) →
      wp m (fun _ c' => Settles c c') (fun _ => True) c := by
    intro n m hm hfull
    apply wp_imp (hm c)
    intro _ c' h
    exact ⟨h.own, fun hlent =>
      (h.lent hlent (hfull hlent)).imp_left fun hdeclined => hdeclined.noneClosed⟩
  cases other with
  | file fd takeOwnership => exact writeFileDescriptor.settles c
  | token interface => exact hparts writeInterfaceToken.behaves hbegins
  | item it =>
    cases it with
    | nullBinder => exact hparts writeStrongBinder.behaves hbegins
    | binder b => exact hparts writeStrongBinder.behaves hbegins
    | value v =>
      cases v with
      | string str => exact hparts writeString16.behaves hbegins
      | blob data => exact write.settles c
      | int32 val => exact writeAligned.settles c
      | bool val => exact writeAligned.settles c
      | pointer val => exact writeAligned.settles c
      | nullString => exact writeAligned.settles c

/-! ## The law -/

/-- The calls that change what files a parcel has. -/
inductive FileCall
  | write (other : OtherWrite)
  | setDataSize (size : Nat)
  | freeData

def runFileCall (x : Calls W) : FileCall → Prog (Ctx W) Fault Unit
  | .write other => do
    let _ ← writeOther x other
    pure ()
  | .setDataSize size => do
    let _ ← setDataSize x.toOutside size
    pure ()
  | .freeData => freeData x.toOutside

/-- A parcel, the file that each object on its list came with, and all files that it contained up to
now. An object that came in the copy of a buffer has none, since its file is closed with the
buffer. -/
structure Tracked (W : Type) where
  ctx : Ctx (Logged W)
  came : List (Option (BitVec 32))
  contained : List (BitVec 32)

/-- No file was closed yet. -/
def Tracked.start (c : Ctx W) : Tracked W where
  ctx := ⟨c.parcel, c.heap, (c.world, [])⟩
  came := (listedObjects c.parcel).map fileOf
  contained := (listedObjects c.parcel).filterMap fileOf

/-- The parcel has memory of its own in place of a buffer of the driver. -/
def TakesCopy (p p' : Parcel) : Prop := p.mOwner ≠ none ∧ p'.mOwner = none

instance (p p' : Parcel) : Decidable (TakesCopy p p') := inferInstanceAs (Decidable (_ ∧ _))

/-- What those objects came with that stay on the list. One that is written over keeps it. -/
def Tracked.stays (s : Tracked W) (c' : Ctx (Logged W)) : List (Option (BitVec 32)) :=
  if TakesCopy s.ctx.parcel c'.parcel
  then (s.came.take (listedObjects c'.parcel).length).map fun _ => none
  else s.came.take (listedObjects c'.parcel).length

/-- What is known once the parcel has become that of `c'`. -/
def Tracked.next (s : Tracked W) (c' : Ctx (Logged W)) : Tracked W where
  ctx := c'
  came := s.stays c' ++ ((listedObjects c'.parcel).drop s.came.length).map fileOf
  contained := s.contained ++ ((listedObjects c'.parcel).drop s.came.length).filterMap fileOf

def runTracked (x : Calls W) (call : FileCall) : Prog (Tracked W) Fault Unit := fun s =>
  match runFileCall (logged x) call s.ctx with
  | .ok (_, c') => .ok ((), s.next c')
  | .error e => .error e

/-- Each call of `close` has a file object of its own. -/
def ClosesOnce (s : Tracked W) : Prop := List.Subperm s.ctx.world.2 s.contained

/-- The objects from the `n`th on that `P` says read as they came. -/
def ReadAsTheyCame (P : FlatBinderObject → Bool) (n : Nat) (s : Tracked W) : Prop :=
  ∀ e ∈ ((listedObjects s.ctx.parcel).zip s.came).drop n, P e.1 = true → e.2 = some e.1.handle

instance (P : FlatBinderObject → Bool) (n : Nat) (s : Tracked W) :
    Decidable (ReadAsTheyCame P n s) := inferInstanceAs (Decidable (∀ e ∈ _, _))

def IsAnyFile (obj : FlatBinderObject) : Bool := obj.type == BINDER_TYPE_FD

def IsOwned (obj : FlatBinderObject) : Bool := IsAnyFile obj && obj.cookie != 0

/-- How many objects the call keeps on the list of a parcel with memory of its own. -/
def keeps (call : FileCall) (p : Parcel) : Nat :=
  match call with
  | .write _ => p.mObjectsSize
  | .setDataSize size => kept p size
  | .freeData => 0

/-- Each owned file that a parcel with memory of its own lets go of came there, and not in the copy
of a buffer of the driver, and was not written over. Nothing is written over the files of such a
buffer, in which no write of several parts begins: it cannot be written to. -/
def LetsGoOfItsOwn (call : FileCall) (s : Tracked W) : Prop :=
  if s.ctx.parcel.mOwner = none then ReadAsTheyCame IsOwned (keeps call s.ctx.parcel) s
  else ReadAsTheyCame IsAnyFile 0 s ∧ match call with
    | .write other => ¬BeginsInside other s.ctx.parcel
    | .setDataSize _ | .freeData => True

theorem isFile_isAnyFile {fd : BitVec 32} {obj : FlatBinderObject} (h : IsFile fd obj = true) :
    IsAnyFile obj = true ∧ obj.handle = fd := by
  unfold IsFile at h
  rw [Bool.and_eq_true, beq_iff_eq (a := obj.handle)] at h
  exact h

theorem isOwnedFile_isOwned {fd : BitVec 32} {obj : FlatBinderObject}
    (h : IsOwnedFile fd obj = true) : IsOwned obj = true ∧ obj.handle = fd := by
  unfold IsOwnedFile at h
  rw [Bool.and_eq_true] at h
  have hfile := isFile_isAnyFile h.1
  exact ⟨by rw [IsOwned, hfile.1, h.2]; rfl, hfile.2⟩

theorem ReadAsTheyCame.mono {P : FlatBinderObject → Bool} {n k : Nat} {s : Tracked W}
    (h : ReadAsTheyCame P n s) (hle : n ≤ k) : ReadAsTheyCame P k s := fun e hmem =>
  h e (List.drop_subset_drop_left _ hle hmem)

theorem ReadAsTheyCame.countP_le {P Q : FlatBinderObject → Bool} {n : Nat} {fd : BitVec 32}
    {s : Tracked W} (h : ReadAsTheyCame P n s)
    (hlength : s.came.length = (listedObjects s.ctx.parcel).length)
    (hQ : ∀ obj, Q obj = true → P obj = true ∧ obj.handle = fd) :
    ((listedObjects s.ctx.parcel).drop n).countP Q ≤ (s.came.drop n).count (some fd) := by
  apply countP_le_came (by rw [List.length_drop, List.length_drop, hlength])
  intro e hmem hQe
  rw [List.zip_eq_zipWith, ← List.drop_zipWith, ← List.zip_eq_zipWith] at hmem
  obtain ⟨hP, hhandle⟩ := hQ e.1 hQe
  rw [h e hmem hP, hhandle]

theorem Tracked.length_stays (s : Tracked W) (c' : Ctx (Logged W)) :
    (s.stays c').length = min (listedObjects c'.parcel).length s.came.length := by
  unfold Tracked.stays
  split
  · rw [List.length_map, List.length_take]
  · rw [List.length_take]

/-- Files that were closed, and those that came for the objects on the list, were contained. -/
structure Backed (s : Tracked W) : Prop where
  length : s.came.length = (listedObjects s.ctx.parcel).length
  files : ∀ fd, s.ctx.world.2.count fd + s.came.count (some fd) ≤ s.contained.count fd

theorem Backed.start (c : Ctx W) : Backed (.start c) where
  length := List.length_map ..
  files fd := by
    show 0 + ((listedObjects c.parcel).map fileOf).count (some fd) ≤
      ((listedObjects c.parcel).filterMap fileOf).count fd
    rw [count_map_fileOf, count_filterMap_fileOf, Nat.zero_add]

theorem Backed.closesOnce {s : Tracked W} (h : Backed s) : ClosesOnce s :=
  List.subperm_ext_iff.mpr fun fd _ => Nat.le_trans (Nat.le_add_right _ _) (h.files fd)

/-- What is closed is no longer among what came for an object on the list. -/
def Spends (s : Tracked W) (c' : Ctx (Logged W)) : Prop := ∀ fd,
  c'.world.2.count fd + (s.stays c').count (some fd) ≤
    s.ctx.world.2.count fd + s.came.count (some fd)

theorem Backed.next {s : Tracked W} (h : Backed s) (hspends : Spends s c') :
    Backed (s.next c') where
  length := by
    show (s.stays c' ++ ((listedObjects c'.parcel).drop s.came.length).map fileOf).length = _
    rw [List.length_append, s.length_stays, List.length_map, List.length_drop]
    show _ = (listedObjects c'.parcel).length
    omega
  files fd := by
    show c'.world.2.count fd + (s.stays c' ++
        ((listedObjects c'.parcel).drop s.came.length).map fileOf).count (some fd) ≤
      (s.contained ++ ((listedObjects c'.parcel).drop s.came.length).filterMap fileOf).count fd
    rw [List.count_append, List.count_append, count_map_fileOf, count_filterMap_fileOf]
    have hbefore := h.files fd
    have hstep := hspends fd
    omega

theorem NoneClosed.spends {s : Tracked W} (h : NoneClosed s.ctx c') : Spends s c' := by
  intro fd
  have hkept : ¬TakesCopy s.ctx.parcel c'.parcel := fun htakes => htakes.1 (h.owner ▸ htakes.2)
  unfold Tracked.stays
  rw [h.log fd, if_neg hkept]
  exact Nat.add_le_add_left ((List.take_sublist _ _).count_le _) _

/-- A buffer of the driver closes its files, and the copy has none to close. -/
theorem ClosedAll.spends {s : Tracked W} (h : ClosedAll s.ctx c') (hbacked : Backed s)
    (hlent : s.ctx.parcel.mOwner ≠ none) (hsame : ReadAsTheyCame IsAnyFile 0 s) :
    Spends s c' := by
  intro fd
  obtain ⟨relFunc, howner⟩ := Option.ne_none_iff_exists'.mp hlent
  have hfiles : filesOf fd (listedObjects s.ctx.parcel) ≤ s.came.count (some fd) :=
    hsame.countP_le hbacked.length fun obj => isFile_isAnyFile
  have hnone : (s.stays c').count (some fd) = 0 := by
    unfold Tracked.stays
    rw [if_pos ⟨hlent, h.owner⟩]
    apply List.count_eq_zero.mpr
    intro hmem
    obtain ⟨_, -, hne⟩ := List.mem_map.mp hmem
    cases hne
  rw [h.log fd, toClose_lent howner, hnone]
  omega

theorem firstObjects_eq_take {p : Parcel} {n : Nat} (hle : n ≤ p.mObjectsSize) :
    firstObjects p n = (listedObjects p).take n := by
  unfold listedObjects retained firstObjects
  rw [← List.map_take, List.take_take, Nat.min_eq_left hle]

/-- A parcel with memory of its own closes the owned files of the objects that it drops. -/
theorem spends_of_drops {s : Tracked W} {k : Nat} (hbacked : Backed s)
    (hown : s.ctx.parcel.mOwner = none) (hfew : (listedObjects c'.parcel).length ≤ k)
    (hsame : ReadAsTheyCame IsOwned k s)
    (hlog : ∀ fd, c'.world.2.count fd +
        ownedFilesOf fd ((listedObjects s.ctx.parcel).take k) =
      s.ctx.world.2.count fd + ownedFilesOf fd (listedObjects s.ctx.parcel)) :
    Spends s c' := by
  intro fd
  have hdropped : ownedFilesOf fd ((listedObjects s.ctx.parcel).drop k) ≤
      (s.came.drop k).count (some fd) :=
    hsame.countP_le hbacked.length fun obj => isOwnedFile_isOwned
  have hsplit : ownedFilesOf fd (listedObjects s.ctx.parcel) =
      ownedFilesOf fd ((listedObjects s.ctx.parcel).take k) +
        ownedFilesOf fd ((listedObjects s.ctx.parcel).drop k) := by
    unfold ownedFilesOf
    rw [← List.countP_append, List.take_append_drop]
  have hcame : s.came.count (some fd) =
      (s.came.take k).count (some fd) + (s.came.drop k).count (some fd) := by
    rw [← List.count_append, List.take_append_drop]
  have hstays : (s.stays c').count (some fd) ≤ (s.came.take k).count (some fd) := by
    unfold Tracked.stays
    rw [if_neg fun htakes => htakes.1 hown]
    exact (List.take_sublist_take_left hfew).count_le _
  have hcount := hlog fd
  omega

/-- A new size closes what it drops of a parcel's own files, or all files of a buffer of the
driver. -/
theorem setDataSize.spends {s : Tracked W} {size : Nat} (hbacked : Backed s)
    (hcall : LetsGoOfItsOwn (.setDataSize size) s) :
    wp (setDataSize (logged x).toOutside size) (fun _ c' => Spends s c') (fun _ => True) s.ctx := by
  have hsame : NoneClosed s.ctx s.ctx := ⟨rfl, fun _ => rfl⟩
  unfold LetsGoOfItsOwn at hcall
  unfold setDataSize
  split
  · exact hsame.spends
  · rw [wp_bind]
    -- the new size itself is neither closed nor listed
    have hresized : ∀ (err : Int) (c₁ : Ctx (Logged W)), Spends s c₁ →
        wp (if err = STATUS_OK then do
          update (fun p => { p with mDataSize := size })
          pure err
        else pure err : Prog (Ctx (Logged W)) Fault Int) (fun _ c' => Spends s c')
        (fun _ => True) c₁ := by
      intro err c₁ hspends
      split
      · exact hspends
      · exact hspends
    cases howner : s.ctx.parcel.mOwner with
    | none =>
      rw [if_pos howner] at hcall
      apply wp_imp (continueWrite.own howner)
      rintro err c₁ ⟨-, k, hfew, hkept, hle, -, hlog⟩
      refine hresized err c₁ (spends_of_drops hbacked howner
        (Nat.le_trans (length_listedObjects c₁.parcel) hfew) (hcall.mono hkept) fun fd => ?_)
      rw [← firstObjects_eq_take hle]
      exact hlog fd
    | some relFunc =>
      have hlent : s.ctx.parcel.mOwner ≠ none := by
        rw [howner]
        exact Option.some_ne_none _
      rw [if_neg hlent] at hcall
      apply wp_imp (continueWrite.lent howner)
      rintro err c₁ (⟨-, hdeclined⟩ | ⟨-, hclosed, -⟩)
      · exact hresized err c₁ hdeclined.noneClosed.spends
      · exact hresized err c₁ (hclosed.spends hbacked hlent hcall.1)

/-- Whatever is called, what is closed had come. -/
theorem runFileCall.spends {call : FileCall} {s : Tracked W} (hbacked : Backed s)
    (hcall : LetsGoOfItsOwn call s) :
    wp (runFileCall (logged x) call) (fun _ c' => Spends s c') (fun _ => True) s.ctx := by
  unfold runFileCall
  cases call with
  | write other =>
    unfold LetsGoOfItsOwn at hcall
    rw [wp_bind]
    apply wp_imp (writeOther.settles fun hlent => (if_neg hlent ▸ hcall).2)
    intro _ c' h
    by_cases howner : s.ctx.parcel.mOwner = none
    · exact (h.own howner).spends
    · rcases h.lent howner with hsame | hclosed
      · exact hsame.spends
      · exact hclosed.spends hbacked howner (if_neg howner ▸ hcall).1
  | setDataSize size =>
    rw [wp_bind]
    exact setDataSize.spends hbacked hcall
  | freeData =>
    unfold LetsGoOfItsOwn at hcall
    apply wp_imp freeData.closes
    rintro _ c' ⟨hempty, hclosed⟩
    by_cases howner : s.ctx.parcel.mOwner = none
    · rw [if_pos howner] at hcall
      refine spends_of_drops hbacked howner ?_ hcall fun fd => ?_
      · rw [hempty]
        exact Nat.le_refl _
      · rw [hclosed.log fd, toClose_own howner]
        rfl
    · rw [if_neg howner] at hcall
      exact hclosed.spends hbacked howner hcall.1

theorem runTracked.backed {call : FileCall} {s s' : Tracked W} (h : Backed s)
    (hcall : LetsGoOfItsOwn call s) (hrun : runTracked x call s = .ok ((), s')) : Backed s' := by
  unfold runTracked at hrun
  split at hrun
  · rename_i c' hc'
    cases hrun
    exact h.next ((runFileCall.spends h hcall).of_ok hc')
  · cases hrun

/-- What holds behind a call. -/
def ClosedOnce : Except Fault (Unit × Tracked W) → Prop
  | .ok (_, s') => ClosesOnce s'
  | .error _ => True

/-- In every run of writes, new sizes and frees, on a parcel of its own or over a buffer of the
driver, no file is closed twice for one object, if each owned file that is let go of came there, not
in a copy of such a buffer, and was not written over. -/
theorem files_are_closed_once_where_its_own_are_let_go_of (x : Calls W) (c : Ctx W)
    (calls : List FileCall) (hcalls : Allowed (runTracked x) LetsGoOfItsOwn calls (.start c)) :
    Always (runTracked x) (fun _ _ => ClosedOnce) calls (.start c) := by
  apply always_of_inv Backed _ (fun call s _ s' h hcall hrun => runTracked.backed h hcall hrun)
    (.start c) hcalls
  intro call s h hcall
  cases hrun : runTracked x call s with
  | error e => trivial
  | ok r =>
    obtain ⟨_, s'⟩ := r
    exact (runTracked.backed h hcall hrun).closesOnce

end

instance decidableBeginsInside : (other : OtherWrite) → (p : Parcel) →
    Decidable (BeginsInside other p)
  | .item (.value (.string _)), _ | .token _, _ | .item (.binder _), _ | .item .nullBinder, _ =>
    inferInstanceAs (Decidable (_ ≤ _))
  | .item (.value (.int32 _)), _ | .item (.value (.bool _)), _ | .item (.value (.pointer _)), _ |
    .item (.value (.blob _)), _ | .item (.value .nullString), _ | .file _ _, _ => .isFalse id

instance decidableLetsGoOfItsOwn {W : Type} : (call : FileCall) → (s : Tracked W) →
    Decidable (LetsGoOfItsOwn call s)
  | .write other, s => inferInstanceAs (Decidable (if s.ctx.parcel.mOwner = none then
      ReadAsTheyCame IsOwned _ s else ReadAsTheyCame IsAnyFile 0 s ∧ ¬BeginsInside other _))
  | .setDataSize _, s | .freeData, s => inferInstanceAs (Decidable (if s.ctx.parcel.mOwner = none
      then ReadAsTheyCame IsOwned _ s else ReadAsTheyCame IsAnyFile 0 s ∧ True))

/-- A buffer of the driver with a file. -/
def withFile (cookie : BitVec 64) : Block UInt8 where
  address := 0
  cells := FlatBinderObject.toBytes
    { type := BINDER_TYPE_FD, flags := 0, binder := 5, cookie := cookie }

/-- A string does not fit in the buffer, whose file is closed. The new size drops the next file, and
the last one is closed when the parcel is freed. -/
theorem three_files_are_closed_once : ∃ c₁ : Ctx ParcelProcess,
    receiveToEnd (ParcelProcess.calls (Process.knot 1) quietEnv).toOutside (withFile 0) ⟨1, [0]⟩
      ⟨empty, plenty, twoBinders⟩ = .ok ((), c₁) ∧
    Always (runTracked (ParcelProcess.calls (Process.knot 1) quietEnv)) (fun _ _ => ClosedOnce)
      [.write (.item (.value (.string hi))), .write (.file 9 true), .setDataSize 24,
        .write (.file 10 true), .freeData] (.start c₁) := by
  obtain ⟨u, c₁, hrun, hcalls⟩ : ∃ (u : Unit) (c₁ : Ctx ParcelProcess),
      receiveToEnd (ParcelProcess.calls (Process.knot 1) quietEnv).toOutside (withFile 0) ⟨1, [0]⟩
        ⟨empty, plenty, twoBinders⟩ = .ok (u, c₁) ∧
      Allowed (runTracked (ParcelProcess.calls (Process.knot 1) quietEnv)) LetsGoOfItsOwn
        [.write (.item (.value (.string hi))), .write (.file 9 true), .setDataSize 24,
          .write (.file 10 true), .freeData] (.start c₁) := wp_never_iff.mp (by decide +kernel)
  exact ⟨c₁, hrun, files_are_closed_once_where_its_own_are_let_go_of _ c₁ _ hcalls⟩

/-- A file of a buffer of the driver that says that it is owned is closed with the buffer, which a
word does not fit in, and once more with the copy. -/
theorem an_owned_file_of_a_buffer_is_closed_twice : ∃ (c₁ : Ctx ParcelProcess)
    (s₂ s₃ : Tracked ParcelProcess),
    receiveToEnd (ParcelProcess.calls (Process.knot 1) quietEnv).toOutside (withFile 1) ⟨1, [0]⟩
      ⟨empty, plenty, twoBinders⟩ = .ok ((), c₁) ∧
    runTracked (ParcelProcess.calls (Process.knot 1) quietEnv) (.write (.item (.value (.int32 7))))
      (.start c₁) = .ok ((), s₂) ∧
    runTracked (ParcelProcess.calls (Process.knot 1) quietEnv) .freeData s₂ = .ok ((), s₃) ∧
    s₃.contained = [5] ∧ s₃.ctx.world.2 = [5, 5] ∧ ¬ClosesOnce s₃ := by
  obtain ⟨u, c₁, hrun, hrest⟩ : ∃ (u : Unit) (c₁ : Ctx ParcelProcess),
      receiveToEnd (ParcelProcess.calls (Process.knot 1) quietEnv).toOutside (withFile 1) ⟨1, [0]⟩
        ⟨empty, plenty, twoBinders⟩ = .ok (u, c₁) ∧
      wp (runTracked (ParcelProcess.calls (Process.knot 1) quietEnv)
          (.write (.item (.value (.int32 7)))))
        (fun _ s₂ => wp (runTracked (ParcelProcess.calls (Process.knot 1) quietEnv) .freeData)
          (fun _ s₃ => s₃.contained = [5] ∧ s₃.ctx.world.2 = [5, 5]) never s₂) never (.start c₁) :=
    wp_never_iff.mp (by decide +kernel)
  obtain ⟨_, s₂, hwrite, hrest⟩ := wp_never_iff.mp hrest
  obtain ⟨_, s₃, hfree, hcontained, hlog⟩ := wp_never_iff.mp hrest
  refine ⟨c₁, s₂, s₃, hrun, hwrite, hfree, hcontained, hlog, fun honce => ?_⟩
  have htwo := honce.length_le
  rw [hcontained, hlog] at htwo
  exact absurd htwo (by decide)

end system_binder.Parcel
