import Mathlib.Data.Int.Notation
import Glider.Lib.Bytes
import Glider.Lib.Run
import Mathlib.Data.List.Nodup

namespace Glider.Db

open Glider.Lib

abbrev UserId := ℤ

abbrev ChatId := ℤ

inductive ListType where
  | WHITELIST
  | BLACKLIST
  deriving DecidableEq

inductive ListResult where
  | OK
  | NOT_IN_LIST
  | ALREADY_IN_LIST
  | ALREADY_IN_OTHER_LIST
  | BACKEND_ERROR
  deriving DecidableEq

inductive OwnerClaimResult where
  | OK
  | ALREADY_SET
  | BACKEND_ERROR
  deriving DecidableEq

-- The numbers of the enum are stored; one without a name stays a number.
inductive MediaType where
  | UNKNOWN
  | PHOTO
  | VIDEO
  | AUDIO
  | DOCUMENT
  | STICKER
  | GIF
  | unrecognized (number : UInt8)
  deriving DecidableEq

namespace MediaType

def toNumber : MediaType → ℤ
  | UNKNOWN => 0
  | PHOTO => 1
  | VIDEO => 2
  | AUDIO => 3
  | DOCUMENT => 4
  | STICKER => 5
  | GIF => 6
  | unrecognized number => number.toNat

-- The enum has eight bits.
def ofNumber (n : ℤ) : MediaType :=
  match (n % 256).toNat with
  | 0 => UNKNOWN
  | 1 => PHOTO
  | 2 => VIDEO
  | 3 => AUDIO
  | 4 => DOCUMENT
  | 5 => STICKER
  | 6 => GIF
  | number => unrecognized (.ofNat number)

end MediaType

structure MediaInfo where
  mediaId : Bytes
  mediaUniqueId : Bytes
  names : List Bytes
  mediaType : MediaType
  deriving DecidableEq

inductive AddResult where
  | OK
  | ALREADY_EXISTS
  | BACKEND_ERROR
  deriving DecidableEq

structure ChatInfo where
  chatId : ChatId
  name : Bytes
  deriving DecidableEq

-- The interface of a backend with its state.
structure DatabaseBase (σ : Type) where
  addUserToList : ListType → UserId → σ → ListResult × σ
  removeUserFromList : ListType → UserId → σ → ListResult × σ
  checkUserInList : ListType → UserId → σ → ListResult × σ
  getOwnerUserId : σ → Option UserId × σ
  claimOwnerUserId : UserId → σ → OwnerClaimResult × σ
  queryMediaInfo : Bytes → σ → Option MediaInfo × σ
  addMediaInfo : MediaInfo → σ → AddResult × σ
  getAllMediaInfos : σ → List MediaInfo × σ
  deleteMediaInfo : Bytes → σ → Bool × σ
  getMediaIds : Bytes → σ → Option (List Bytes) × σ
  addChatInfo : ChatId → Bytes → σ → AddResult × σ
  getChatId : Bytes → σ → Option ChatId × σ
  getChatName : ChatId → σ → Option Bytes × σ
  deleteChatInfo : ChatId → σ → Bool × σ
  getAllChatInfos : σ → List ChatInfo × σ

section Calls

inductive ListCall where
  | addUserToList (type : ListType) (user : UserId)
  | removeUserFromList (type : ListType) (user : UserId)
  | checkUserInList (type : ListType) (user : UserId)
  | claimOwnerUserId (user : UserId)
  | getOwnerUserId

inductive ListAnswer where
  | list (result : ListResult)
  | claim (result : OwnerClaimResult)
  | owner (user : Option UserId)
  deriving DecidableEq

inductive MediaCall where
  | addMediaInfo (info : MediaInfo)
  | deleteMediaInfo (mediaId : Bytes)
  | queryMediaInfo (str : Bytes)
  | getMediaIds (name : Bytes)
  | getAllMediaInfos

inductive MediaAnswer where
  | added (result : AddResult)
  | deleted (result : Bool)
  | info (result : Option MediaInfo)
  | ids (result : Option (List Bytes))
  | infos (result : List MediaInfo)
  deriving DecidableEq

inductive ChatCall where
  | addChatInfo (chatid : ChatId) (name : Bytes)
  | deleteChatInfo (chatId : ChatId)

inductive ChatAnswer where
  | added (result : AddResult)
  | deleted (result : Bool)

variable {σ : Type} (db : DatabaseBase σ)

def listStep : Machine σ ListCall ListAnswer
  | s, .addUserToList type user =>
    (.list (db.addUserToList type user s).1, (db.addUserToList type user s).2)
  | s, .removeUserFromList type user =>
    (.list (db.removeUserFromList type user s).1, (db.removeUserFromList type user s).2)
  | s, .checkUserInList type user =>
    (.list (db.checkUserInList type user s).1, (db.checkUserInList type user s).2)
  | s, .claimOwnerUserId user =>
    (.claim (db.claimOwnerUserId user s).1, (db.claimOwnerUserId user s).2)
  | s, .getOwnerUserId => (.owner (db.getOwnerUserId s).1, (db.getOwnerUserId s).2)

def mediaStep : Machine σ MediaCall MediaAnswer
  | s, .addMediaInfo info => (.added (db.addMediaInfo info s).1, (db.addMediaInfo info s).2)
  | s, .deleteMediaInfo mediaId =>
    (.deleted (db.deleteMediaInfo mediaId s).1, (db.deleteMediaInfo mediaId s).2)
  | s, .queryMediaInfo str => (.info (db.queryMediaInfo str s).1, (db.queryMediaInfo str s).2)
  | s, .getMediaIds name => (.ids (db.getMediaIds name s).1, (db.getMediaIds name s).2)
  | s, .getAllMediaInfos => (.infos (db.getAllMediaInfos s).1, (db.getAllMediaInfos s).2)

def chatStep : Machine σ ChatCall ChatAnswer
  | s, .addChatInfo chatid name =>
    (.added (db.addChatInfo chatid name s).1, (db.addChatInfo chatid name s).2)
  | s, .deleteChatInfo chatId =>
    (.deleted (db.deleteChatInfo chatId s).1, (db.deleteChatInfo chatId s).2)

end Calls

-- What both backends keep about users, whatever they keep it in.
@[ext]
structure Roster where
  owner : Option UserId
  whitelist : List UserId
  blacklist : List UserId

namespace Roster

def empty : Roster := ⟨none, [], []⟩

def list (r : Roster) : ListType → List UserId
  | .WHITELIST => r.whitelist
  | .BLACKLIST => r.blacklist

def otherList (r : Roster) : ListType → List UserId
  | .WHITELIST => r.blacklist
  | .BLACKLIST => r.whitelist

def setList (r : Roster) (ids : List UserId) : ListType → Roster
  | .WHITELIST => { r with whitelist := ids }
  | .BLACKLIST => { r with blacklist := ids }

structure Consistent (r : Roster) : Prop where
  whitelist : r.whitelist.Nodup
  blacklist : r.blacklist.Nodup
  disjoint : ∀ u ∈ r.whitelist, u ∉ r.blacklist
  owner : ∀ u, r.owner = some u → u ∉ r.blacklist

-- Everything a call may do to the roster, failed writes included.
inductive Step (r : Roster) : ListCall → ListAnswer → Roster → Prop
  | unchanged {call : ListCall} {answer : ListAnswer} (hanswer : answer ≠ .claim .OK) :
      Step r call answer r
  | added {type : ListType} {user : UserId} (hnew : user ∉ r.list type)
      (hother : user ∉ r.otherList type) (howner : type = .BLACKLIST → r.owner ≠ some user) :
      Step r (.addUserToList type user) (.list .OK) (r.setList (r.list type ++ [user]) type)
  | removed {type : ListType} {user : UserId} :
      Step r (.removeUserFromList type user) (.list .OK)
        (r.setList ((r.list type).erase user) type)
  | claimed {user : UserId} (hnone : r.owner = none) (hblack : user ∉ r.blacklist) :
      Step r (.claimOwnerUserId user) (.claim .OK) { r with owner := some user }

theorem consistent_empty : empty.Consistent where
  whitelist := List.nodup_nil
  blacklist := List.nodup_nil
  disjoint := by simp [empty]
  owner := by simp [empty]

theorem Consistent.step {r r' : Roster} {call : ListCall} {answer : ListAnswer}
    (h : r.Consistent) (hstep : r.Step call answer r') : r'.Consistent := by
  cases hstep with
  | unchanged hanswer => exact h
  | @added type user hnew hother howner =>
    cases type with
    | WHITELIST =>
      refine { h with whitelist := ?_, disjoint := ?_ }
      · exact List.nodup_append'.mpr ⟨h.whitelist, List.nodup_singleton user,
          List.disjoint_singleton.mpr hnew⟩
      · intro u hu
        rcases List.mem_append.mp hu with hu | hu
        · exact h.disjoint u hu
        · rw [List.mem_singleton.mp hu]
          exact hother
    | BLACKLIST =>
      refine { h with blacklist := ?_, disjoint := ?_, owner := ?_ }
      · exact List.nodup_append'.mpr ⟨h.blacklist, List.nodup_singleton user,
          List.disjoint_singleton.mpr hnew⟩
      · intro u hu hb
        rcases List.mem_append.mp hb with hb | hb
        · exact h.disjoint u hu hb
        · rw [List.mem_singleton.mp hb] at hu
          exact hother hu
      · intro u hu hb
        rcases List.mem_append.mp hb with hb | hb
        · exact h.owner u hu hb
        · rw [List.mem_singleton.mp hb] at hu
          exact howner rfl hu
  | @removed type user =>
    cases type with
    | WHITELIST =>
      exact { h with
        whitelist := h.whitelist.erase user
        disjoint := fun u hu => h.disjoint u (List.mem_of_mem_erase hu) }
    | BLACKLIST =>
      exact { h with
        blacklist := h.blacklist.erase user
        disjoint := fun u hu hb => h.disjoint u hu (List.mem_of_mem_erase hb)
        owner := fun u hu hb => h.owner u hu (List.mem_of_mem_erase hb) }
  | @claimed user hnone hblack =>
    refine { h with owner := ?_ }
    intro u hu
    rw [← Option.some.inj hu]
    exact hblack

end Roster

-- The users whose claims were answered with `OK`, newest first.
def claimants (history : List (ListCall × ListAnswer)) : List UserId :=
  history.filterMap fun e => match e with
    | (.claimOwnerUserId user, .claim .OK) => some user
    | _ => none

-- The whole run: one owner at most, and for good.
structure Roster.Kept (r : Roster) (history : List (ListCall × ListAnswer)) : Prop where
  consistent : r.Consistent
  claims : claimants history = r.owner.toList

theorem Roster.Kept.step {r r' : Roster} {history : List (ListCall × ListAnswer)}
    {call : ListCall} {answer : ListAnswer} (h : r.Kept history) (hstep : r.Step call answer r') :
    r'.Kept ((call, answer) :: history) := by
  refine ⟨h.consistent.step hstep, ?_⟩
  have hclaims := h.claims
  cases hstep with
  | unchanged hanswer =>
    rw [← hclaims, claimants, List.filterMap_cons_none]
    · rfl
    · split <;> simp_all
  | @added type user _ _ _ => cases type <;> exact hclaims
  | @removed type user => cases type <;> exact hclaims
  | @claimed user hnone _ =>
    rw [hnone, Option.toList_none] at hclaims
    show user :: claimants history = [user]
    rw [hclaims]

section Backend

variable {σ : Type} {db : DatabaseBase σ} {view : σ → Roster}

-- A backend whose every call is a step of its roster keeps it.
theorem kept_of_steps
    (hstep : ∀ s call, (view s).Step call (listStep db s call).1 (view (listStep db s call).2))
    {s : σ} (hs : view s = .empty) (calls : List ListCall) :
    let t := (listStep db).recorded.run (s, []) calls
    (view t.1).Kept t.2 := by
  have hkept : ∀ (t : σ × List (ListCall × ListAnswer)) (call : ListCall),
      (view t.1).Kept t.2 → (view ((listStep db).recorded t call).2.1).Kept
        ((listStep db).recorded t call).2.2 := fun t call ht => ht.step (hstep t.1 call)
  refine Machine.run_invariant_of_step hkept ⟨?_, ?_⟩ calls
  · simpa only [hs] using Roster.consistent_empty
  · simp only [hs]
    rfl

end Backend

end Glider.Db
