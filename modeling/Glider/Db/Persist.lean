import Mathlib.Logic.Equiv.List
import Mathlib.Tactic.DeriveEncodable
import Glider.Db.Protobuf

namespace Glider.Db.Protobuf

open Glider.Lib

inductive MutatorCall where
  | addUserToList (type : ListType) (user : UserId)
  | removeUserFromList (type : ListType) (user : UserId)
  | claimOwnerUserId (user : UserId)
  | addMediaInfo (info : MediaInfo)
  | deleteMediaInfo (mediaId : Bytes)
  | addChatInfo (chatid : ChatId) (name : Bytes)
  | deleteChatInfo (chatId : ChatId)

-- A mutator answers whether it did what it was asked for.
def mutatorStep (codec : Codec) : Machine ProtoDatabase MutatorCall Bool
  | s, .addUserToList type user =>
    ((addUserToList codec type user s).1 = .OK, (addUserToList codec type user s).2)
  | s, .removeUserFromList type user =>
    ((removeUserFromList codec type user s).1 = .OK, (removeUserFromList codec type user s).2)
  | s, .claimOwnerUserId user =>
    ((claimOwnerUserId codec user s).1 = .OK, (claimOwnerUserId codec user s).2)
  | s, .addMediaInfo info => ((addMediaInfo codec info s).1 = .OK, (addMediaInfo codec info s).2)
  | s, .deleteMediaInfo mediaId => deleteMediaInfo codec mediaId s
  | s, .addChatInfo chatid name =>
    ((addChatInfo codec chatid name s).1 = .OK, (addChatInfo codec chatid name s).2)
  | s, .deleteChatInfo chatId => deleteChatInfo codec chatId s

-- What the interface shows of a database.
structure Observed where
  owner : Option UserId
  whitelist : List UserId
  blacklist : List UserId
  media : List MediaInfo
  chats : List ChatInfo

def observe (object : Database) : Observed where
  owner := object.ownerId
  whitelist := getPersonList object .WHITELIST
  blacklist := getPersonList object .BLACKLIST
  media := object.mediaToNames.map fun m => m.info m.names
  chats := object.chatToNames.map fun c => ⟨c.id, c.chatName⟩

def ProtoDatabase.observed (s : ProtoDatabase) : Option Observed :=
  s.dbinfo.map fun info => observe info.object

def Codec.RoundTrips (codec : Codec) : Prop :=
  ∀ object, codec.parse (codec.serialize object) = some object

theorem temporarySnapshotPath_ne (target : Bytes) (pid sequence : ℕ) :
    target ≠ temporarySnapshotPath target pid sequence := by
  intro h
  have hlen := congrArg List.length h
  simp only [temporarySnapshotPath, List.length_append, List.length_cons] at hlen
  omega

-- A save either replaces the target as a whole or leaves it alone.
theorem saveSnapshot_spec (failure : Option SaveStage) (bytes : Bytes) {temporary target : Bytes}
    (hne : target ≠ temporary) (files : FileStore Bytes UInt8) :
    ((saveSnapshot failure bytes temporary target files).1 = true ∧
      (saveSnapshot failure bytes temporary target files).2.contents target = some bytes) ∨
    ((saveSnapshot failure bytes temporary target files).1 = false ∧
      (saveSnapshot failure bytes temporary target files).2.contents target =
        files.contents target) := by
  have hremoved : files.Untouched (files.unlink temporary) target := FileStore.untouched_unlink hne
  have hopened := hremoved.trans (FileStore.untouched_truncate hne)
  have hwritten := hopened.trans (FileStore.untouched_put hne bytes)
  have hcleaned : ∀ {written : FileStore Bytes UInt8}, files.Untouched written target →
      (written.unlink temporary).contents target = files.contents target :=
    fun h => (h.trans (FileStore.untouched_unlink hne)).contents
  unfold saveSnapshot
  simp only
  split
  · exact Or.inr ⟨rfl, hcleaned hremoved⟩
  split
  · exact Or.inr ⟨rfl, hcleaned hopened⟩
  split
  · exact Or.inr ⟨rfl, hcleaned hwritten⟩
  obtain ⟨moved, hmoved, hcontents⟩ := @FileStore.rename_of_contents _ _ _ _ temporary target bytes
    (((files.unlink temporary).truncate temporary).2.contents_put_self temporary bytes)
  rw [hmoved]
  exact Or.inl ⟨rfl, hcontents⟩

section Steps

variable {codec : Codec} {s s' : ProtoDatabase} {info : Info}

-- A call on a file database that failed has changed nothing that shows, one that succeeded has
-- saved what it made.
def Settled (codec : Codec) (s : ProtoDatabase) (info : Info) (ok : Bool) (s' : ProtoDatabase) :
    Prop :=
  ∃ object, s'.dbinfo = some { info with object } ∧
    if ok then s'.files.contents info.path = some (codec.serialize object)
    else observe object = observe info.object ∧
      s'.files.contents info.path = s.files.contents info.path

theorem Settled.unchanged (hs : s.dbinfo = some info) : Settled codec s info false s :=
  ⟨info.object, hs, rfl, rfl⟩

theorem observe_setPersonList_self (object : Database) (type : ListType) :
    observe (mutablePersonList object type) = observe object := by
  cases type <;> rfl

theorem Settled.withObject {object : Database} (h : observe object = observe info.object) :
    Settled codec s info false (s.withObject info object) := ⟨object, rfl, h, rfl⟩

theorem persistLocked_spec (hs : s.dbinfo = some info) (hfile : info.path ≠ kInMemoryDatabase) :
    (persistLocked codec s).2.dbinfo = some info ∧
      (((persistLocked codec s).1 = true ∧
        (persistLocked codec s).2.files.contents info.path =
          some (codec.serialize info.object)) ∨
      ((persistLocked codec s).1 = false ∧
        (persistLocked codec s).2.files.contents info.path = s.files.contents info.path)) := by
  simp only [persistLocked, hs, if_neg hfile]
  exact ⟨trivial, saveSnapshot_spec _ _ (temporarySnapshotPath_ne _ _ _) _⟩

-- The one way every mutator ends.
theorem commit_settled {α : Type} [DecidableEq α] (hfile : info.path ≠ kInMemoryDatabase)
    {object previous : Database} {success failure : α} (hdiff : failure ≠ success)
    (hprevious : observe previous = observe info.object) :
    Settled codec s info (decide ((s.commit codec info object previous success failure).1 = success))
      (s.commit codec info object previous success failure).2 := by
  have hspec := @persistLocked_spec codec (s.withObject info object) { info with object } rfl hfile
  unfold ProtoDatabase.commit
  obtain ⟨hinfo, ⟨hok, hsaved⟩ | ⟨hok, hkept⟩⟩ := hspec
  · simp only [hok, if_true, decide_true]
    exact ⟨object, hinfo, hsaved⟩
  · simp only [hok, Bool.false_eq_true, if_false, decide_eq_false hdiff]
    exact ⟨previous, rfl, hprevious, hkept⟩

theorem mutatorStep_settled (hs : s.dbinfo = some info) (hfile : info.path ≠ kInMemoryDatabase)
    (call : MutatorCall) :
    Settled codec s info (mutatorStep codec s call).1 (mutatorStep codec s call).2 := by
  cases call with
  | addUserToList type user =>
    simp only [mutatorStep, addUserToList, hs]
    split
    · exact .unchanged hs
    split
    · exact .unchanged hs
    split
    · exact .withObject (observe_setPersonList_self ..)
    · exact commit_settled hfile (by decide) (observe_setPersonList_self ..)
  | removeUserFromList type user =>
    simp only [mutatorStep, removeUserFromList, hs]
    split
    · exact commit_settled hfile (by decide) (observe_setPersonList_self ..)
    · exact .withObject (observe_setPersonList_self ..)
  | claimOwnerUserId user =>
    simp only [mutatorStep, claimOwnerUserId, hs]
    split
    · exact .unchanged hs
    rename_i howner
    split
    · exact .unchanged hs
    · refine commit_settled hfile (by decide) ?_
      simp only [Bool.not_eq_true, Option.isSome_eq_false_iff, Option.isNone_iff_eq_none]
        at howner
      simp [observe, howner, getPersonList]
  | addMediaInfo info =>
    simp only [mutatorStep, addMediaInfo, hs]
    split
    · exact .unchanged hs
    · exact commit_settled hfile (by decide) rfl
  | deleteMediaInfo mediaId =>
    simp only [mutatorStep, deleteMediaInfo, hs]
    split
    · rename_i i hi
      simpa using
        @commit_settled codec s info Bool _ hfile _ info.object true false (by decide) rfl
    · exact .unchanged hs
  | addChatInfo chatid name =>
    simp only [mutatorStep, addChatInfo, hs]
    split
    · exact .unchanged hs
    · exact commit_settled hfile (by decide) rfl
  | deleteChatInfo chatId =>
    simp only [mutatorStep, deleteChatInfo, hs]
    split
    · rename_i i hi
      simpa using
        @commit_settled codec s info Bool _ hfile _ info.object true false (by decide) rfl
    · exact .unchanged hs

-- Memory shows what the file holds.
def Synced (codec : Codec) (path : Bytes) (s : ProtoDatabase) : Prop :=
  ∃ info, s.dbinfo = some info ∧ info.path = path ∧
    ∃ stored, loadObject codec s.files path = some stored ∧ observe stored = observe info.object

theorem Settled.synced {path : Bytes} {ok : Bool} (hcodec : codec.RoundTrips)
    (hpath : path ≠ kInMemoryDatabase) (hinfo : info.path = path)
    (hsynced : ∃ stored, loadObject codec s.files path = some stored ∧
      observe stored = observe info.object)
    (h : Settled codec s info ok s') : Synced codec path s' := by
  obtain ⟨object, hs', hfiles⟩ := h
  refine ⟨_, hs', hinfo, ?_⟩
  subst hinfo
  cases ok with
  | true =>
    simp only [if_true] at hfiles
    refine ⟨object, ?_, rfl⟩
    simp only [loadObject, if_neg hpath, hfiles, hcodec object]
  | false =>
    simp only [Bool.false_eq_true, if_false] at hfiles
    obtain ⟨stored, hload, hshown⟩ := hsynced
    refine ⟨stored, ?_, hshown.trans hfiles.1.symm⟩
    simp only [loadObject, if_neg hpath, hfiles.2] at hload ⊢
    exact hload

theorem synced_step {path : Bytes} (hcodec : codec.RoundTrips) (hpath : path ≠ kInMemoryDatabase)
    (call : MutatorCall) (h : Synced codec path s) :
    Synced codec path (mutatorStep codec s call).2 := by
  obtain ⟨info, hs, hinfo, hstored⟩ := h
  exact (mutatorStep_settled hs (hinfo ▸ hpath) call).synced hcodec hpath hinfo hstored

theorem synced_load {path : Bytes} (hload : load codec path s = (true, s')) :
    Synced codec path s' := by
  unfold load at hload
  cases hs : s.dbinfo with
  | some info => simp [hs] at hload
  | none =>
    cases hobject : loadObject codec s.files path with
    | none => simp [hs, hobject] at hload
    | some object =>
      simp only [hs, hobject, Prod.mk.injEq, true_and] at hload
      subst hload
      exact ⟨_, rfl, rfl, object, hobject, rfl⟩

end Steps

-- Whatever fails on the way: a mutator that reports failure has changed nothing that shows, and
-- memory and file stay the same database.
theorem mutators_roll_back (codec : Codec) (hcodec : codec.RoundTrips) (s₀ s : ProtoDatabase)
    (path : Bytes) (hpath : path ≠ kInMemoryDatabase) (hload : load codec path s₀ = (true, s))
    (calls : List MutatorCall) :
    let t := (mutatorStep codec).run s calls
    (∀ call, (mutatorStep codec t call).1 = false →
      (mutatorStep codec t call).2.observed = t.observed) ∧
    (load codec path { t with dbinfo := none }).1 = true ∧
      (load codec path { t with dbinfo := none }).2.observed = t.observed := by
  intro t
  have hsynced : Synced codec path t :=
    Machine.run_invariant_of_step (fun s call h => synced_step hcodec hpath call h)
      (synced_load hload) calls
  obtain ⟨info, ht, hinfo, stored, hstored, hshown⟩ := hsynced
  refine ⟨fun call hfailed => ?_, ?_, ?_⟩
  · obtain ⟨object, hs', hkept⟩ :=
      @mutatorStep_settled codec t info ht (hinfo ▸ hpath) call
    simp only [hfailed, Bool.false_eq_true, if_false] at hkept
    simp only [ProtoDatabase.observed, hs', ht, Option.map_some, hkept.1]
  · simp only [load, hstored]
  · simp only [load, hstored, ProtoDatabase.observed, ht, Option.map_some, hshown]

section Sample

instance encodableUInt8 : Encodable UInt8 :=
  Encodable.ofLeftInjection UInt8.toNat (fun n => some (.ofNat n)) fun b => by simp

deriving instance Encodable for MediaToName

deriving instance Encodable for ChatToName

deriving instance Encodable for Database

def ownerOnly : Database := { Database.empty with ownerId := some 5 }

-- The wire format of the two messages of the sample. The others are kept under a tag that no
-- message starts with.
def sampleCodec : Codec where
  serialize object :=
    if object = .empty then []
    else if object = ownerOnly then [8, 5]
    else 0 :: List.replicate (Encodable.encode object) 0
  parse bytes :=
    if bytes = [] then some .empty
    else if bytes = [8, 5] then some ownerOnly
    else Encodable.decode (bytes.length - 1)

theorem sampleCodec_roundTrips : sampleCodec.RoundTrips := by
  intro object
  simp only [sampleCodec]
  by_cases hempty : object = .empty
  · simp [hempty]
  by_cases howner : object = ownerOnly
  · simp [howner, show ownerOnly ≠ .empty by decide]
  · simp [hempty, howner, Encodable.encodek]

-- A new database at `/d`. The first save works, the second one fails in the rename.
def sampleDatabase : ProtoDatabase :=
  ⟨none, FileStore.empty, 1, 0, fun n => if n = 1 then some .rename else none⟩

theorem mutators_roll_back_sample :
    let t := (mutatorStep sampleCodec).run { sampleDatabase with dbinfo := some ⟨.empty, [47, 100]⟩ }
      [.claimOwnerUserId 5, .addUserToList .WHITELIST 7]
    (load sampleCodec [47, 100] { t with dbinfo := none }).2.observed = t.observed :=
  (mutators_roll_back sampleCodec sampleCodec_roundTrips sampleDatabase _ [47, 100] (by decide) rfl
    [.claimOwnerUserId 5, .addUserToList .WHITELIST 7]).2.2

end Sample

end Glider.Db.Protobuf
