import Glider.Lib.Assoc
import Glider.Lib.Decimal
import Glider.Ml.Csv

namespace Glider.Ml

open Lib
open Bytes (ascii)
open Decimal (stoll)

-- What the dictionaries keep of the users and chats of the API.
structure User where
  firstName : Bytes
  lastName : Option Bytes
  username : Option Bytes
  isPremium : Option Bool
  deriving DecidableEq

structure Chat where
  title : Option Bytes

structure Files where
  chatData : Option Bytes
  userDict : Option Bytes
  chatDict : Option Bytes

structure ChatDataCollector where
  userDict : Assoc ℤ User
  chatDict : Assoc ℤ Chat

def chatDataHeader : Bytes :=
  ascii "chat_id,user_id,timestamp,message_type,is_edited,is_forwarded,reply_to_user_id," ++
    ascii "message_id,reply_to_message_id,reply_to_chat_id,thread_id,is_premium,text_length," ++
    ascii "word_count\n"

def nonempty (field : Bytes) : Option Bytes := if field = [] then none else some field

-- The member that a row of enough fields makes; `none` is the exception of `std::stoll`.
def userEntry (parts : List Bytes) : Option (ℤ × User) :=
  (stoll (parts.getD 0 [])).map fun id =>
    (id, ⟨parts.getD 1 [], nonempty (parts.getD 2 []), nonempty (parts.getD 3 []),
      some (parts.getD 4 [] = ascii "1")⟩)

def chatEntry (parts : List Bytes) : Option (ℤ × Chat) :=
  (stoll (parts.getD 0 [])).map fun id => (id, ⟨nonempty (parts.getD 1 [])⟩)

section Load

variable {α : Type}

-- The loop that reads a dictionary: it ends at the first row that cannot be read, passes over a
-- row of fewer than `size` fields, and throws out of the rest.
def loadRows (size : ℕ) (entry : List Bytes → Option (ℤ × α)) (dict : Assoc ℤ α) (input : Bytes) :
    Option (Assoc ℤ α) :=
  match _ : Csv.readRow input with
  | (none, _) => some dict
  | (some parts, rest) =>
    if parts.length < size then loadRows size entry dict rest
    else
      match entry parts with
      | none => none
      | some member => loadRows size entry (dict.insert member.1 member.2) rest
termination_by input.length
decreasing_by all_goals exact Csv.length_readRow_lt ‹_›

-- A dictionary file, if there is one, is read behind its header.
def loadDict (size : ℕ) (entry : List Bytes → Option (ℤ × α)) : Option Bytes → Option (Assoc ℤ α)
  | none => some .empty
  | some file => loadRows size entry .empty (Csv.readRow file).2

end Load

def loadUserDict (file : Option Bytes) : Option (Assoc ℤ User) := loadDict 5 userEntry file

def loadChatDict (file : Option Bytes) : Option (Assoc ℤ Chat) := loadDict 2 chatEntry file

-- The constructor; `none` is an exception that leaves it. It opens the data file before it reads
-- the dictionaries.
def construct (files : Files) : Option ChatDataCollector × Files :=
  let files := { files with chatData := some (files.chatData.getD chatDataHeader) }
  match loadUserDict files.userDict with
  | none => (none, files)
  | some userDict =>
    match loadChatDict files.chatDict with
    | none => (none, files)
    | some chatDict => (some ⟨userDict, chatDict⟩, files)

def userRow (id : ℤ) (user : User) : Bytes :=
  Csv.encodeRow [Decimal.ofInt id, user.firstName, user.lastName.getD [], user.username.getD [],
    if user.isPremium = some true then ascii "1" else ascii "0"]

def chatRow (id : ℤ) (chat : Chat) : Bytes :=
  Csv.encodeRow [Decimal.ofInt id, chat.title.getD []]

-- A dictionary is written in the order of its keys.
def sorted {α : Type} (dict : Assoc ℤ α) : List (ℤ × α) :=
  dict.members.mergeSort fun a b => a.1 ≤ b.1

-- The destructor.
def destruct (collector : ChatDataCollector) (files : Files) : Files :=
  { files with
    userDict := some (ascii "user_id,first_name,last_name,username,is_premium\n" ++
      (sorted collector.userDict).flatMap fun member => userRow member.1 member.2)
    chatDict := some (ascii "chat_id,chat_title\n" ++
      (sorted collector.chatDict).flatMap fun member => chatRow member.1 member.2) }

open Csv (IsRecord tryParseRow encodeRow)
open Decimal (integer?)

section Rows

variable {α : Type} (size : ℕ) (entry : List Bytes → Option (ℤ × α))

-- The records in front of the first one that does not parse.
def front (records : List Bytes) : List Bytes :=
  records.takeWhile fun record => (tryParseRow record).isSome

-- The rows of enough fields among some records.
def rows (records : List Bytes) : List (List Bytes) :=
  (records.filterMap tryParseRow).filter fun parts => size ≤ parts.length

theorem rows_cons_some {record : Bytes} {parts : List Bytes} (h : tryParseRow record = some parts)
    (records : List Bytes) :
    rows size (record :: records) =
      if size ≤ parts.length then parts :: rows size records else rows size records := by
  rw [rows, List.filterMap_cons_some h, List.filter_cons]
  simp only [decide_eq_true_eq]
  rfl

variable {size entry}

theorem loadRows_of_end {dict : Assoc ℤ α} {input : Bytes} (h : (Csv.readRow input).1 = none) :
    loadRows size entry dict input = some dict := by
  rw [loadRows]
  split
  · rfl
  · next hread =>
    rw [hread] at h
    cases h

theorem loadRows_of_row {dict : Assoc ℤ α} {input rest : Bytes} {parts : List Bytes}
    (h : Csv.readRow input = (some parts, rest)) :
    loadRows size entry dict input =
      if parts.length < size then loadRows size entry dict rest
      else (entry parts).bind fun member =>
        loadRows size entry (dict.insert member.1 member.2) rest := by
  rw [loadRows]
  split
  · next hread =>
    rw [hread] at h
    cases h
  · next hread =>
    rw [hread] at h
    cases h
    split
    · rfl
    · split
      · next hthrew => rw [hthrew, Option.bind_none]
      · next hmember => rw [hmember, Option.bind_some]

variable (size entry)

-- The loop takes in the rows in front of the first record that does not parse, unless one of them
-- throws.
theorem loadRows_flatten (dict : Assoc ℤ α) (records : List Bytes)
    (hrecords : ∀ record ∈ records, IsRecord record) :
    loadRows size entry dict records.flatten =
      ((rows size (front records)).mapM entry).map dict.insertAll := by
  induction records generalizing dict with
  | nil => exact loadRows_of_end rfl
  | cons record records ih =>
    have hread := Csv.readRow_append (hrecords record List.mem_cons_self) records.flatten
    have ih' := fun dict => ih dict fun r hr => hrecords r (List.mem_cons_of_mem _ hr)
    rw [List.flatten_cons]
    cases hparse : tryParseRow record with
    | none =>
      have hfront : front (record :: records) = [] := by
        rw [front, List.takeWhile_cons_of_neg (by rw [hparse]; exact Bool.false_ne_true)]
      rw [loadRows_of_end (by rw [hread, hparse]), hfront]
      rfl
    | some parts =>
      have hfront : front (record :: records) = record :: front records := by
        rw [front, List.takeWhile_cons_of_pos (by rw [hparse]; rfl)]
        rfl
      rw [hparse] at hread
      rw [loadRows_of_row hread, hfront, rows_cons_some size hparse]
      by_cases hshort : parts.length < size
      · rw [if_pos hshort, if_neg (Nat.not_le_of_lt hshort), ih']
      · rw [if_neg hshort, if_pos (Nat.le_of_not_lt hshort), List.mapM_cons]
        cases entry parts with
        | none => rfl
        | some member =>
          rw [Option.bind_some, ih']
          cases (rows size (front records)).mapM entry with
          | none | some members => rfl

end Rows

section Written

-- A dictionary file: a header line and records, none of which has unbalanced quotes.
structure DictFile where
  header : Bytes
  records : List Bytes
  header_isRecord : IsRecord header
  records_isRecord : ∀ record ∈ records, IsRecord record

def DictFile.bytes (file : DictFile) : Bytes := file.header ++ file.records.flatten

-- The user of a record that parses to at least five fields with an integer id.
def wellFormed (record : Bytes) : Option (ℤ × User) :=
  (tryParseRow record).bind fun parts =>
    if 5 ≤ parts.length ∧ (integer? (parts.getD 0 [])).isSome then userEntry parts else none

-- The members that a row can make.
def Writable (member : ℤ × User) : Prop :=
  (-2 ^ 63 ≤ member.1 ∧ member.1 < 2 ^ 63) ∧ member.2.lastName ≠ some [] ∧
    member.2.username ≠ some [] ∧ member.2.isPremium ≠ none

theorem nonempty_ne (field : Bytes) : nonempty field ≠ some [] := by
  rw [nonempty]
  split
  · exact (Option.some_ne_none _).symm
  · next hne => exact fun heq => hne (Option.some.inj heq)

theorem writable_of_userEntry {parts : List Bytes} {member : ℤ × User}
    (h : userEntry parts = some member) : Writable member := by
  obtain ⟨id, hid, rfl⟩ := Option.map_eq_some_iff.mp h
  exact ⟨Decimal.range_of_stoll hid, nonempty_ne _, nonempty_ne _, Option.some_ne_none _⟩

theorem nonempty_getD {field : Option Bytes} (h : field ≠ some []) :
    nonempty (field.getD []) = field := by
  cases field with
  | none => rfl
  | some text => exact if_neg fun heq => h (congrArg some heq)

-- A member comes back from the row it is written as.
theorem wellFormed_userRow {id : ℤ} {user : User} (h : Writable (id, user)) :
    wellFormed (userRow id user) = some (id, user) := by
  obtain ⟨hrange, hlast, hname, hpremium⟩ := h
  have hinteger := Decimal.integer?_ofInt hrange.1 hrange.2
  have hflag : decide ((if user.isPremium = some true then Bytes.ascii "1" else Bytes.ascii "0") =
      Bytes.ascii "1") = user.isPremium.getD false := by
    rcases hp : user.isPremium with _ | _ | _
    · rfl
    · rfl
    · rfl
  obtain ⟨premium, hsome⟩ := Option.ne_none_iff_exists'.mp hpremium
  rw [wellFormed, userRow, Csv.tryParseRow_encodeRow (List.cons_ne_nil _ _), Option.bind_some,
    if_pos ⟨Nat.le_refl 5, by rw [List.getD_cons_zero, hinteger]; rfl⟩, userEntry]
  simp only [List.getD_cons_zero, List.getD_cons_succ, Decimal.stoll_of_integer? hinteger,
    Option.map_some, nonempty_getD hlast, nonempty_getD hname, hflag]
  rw [hsome, Option.getD_some, ← hsome]

-- What the destructor leaves of a dictionary whose members rows can make.
theorem exists_written (collector : ChatDataCollector) (files : Files)
    (hwritable : ∀ member ∈ collector.userDict.members, Writable member) :
    ∃ file : DictFile, (destruct collector files).userDict = some file.bytes ∧
      ∀ id, Assoc.last? (file.records.filterMap wellFormed) id = collector.userDict.find? id := by
  have hperm : (sorted collector.userDict).Perm collector.userDict.members :=
    List.mergeSort_perm _ _
  have hrecords : ∀ record ∈ (sorted collector.userDict).map fun m => userRow m.1 m.2,
      IsRecord record := by
    intro record hrecord
    obtain ⟨member, -, rfl⟩ := List.mem_map.mp hrecord
    exact Csv.isRecord_encodeRow _
  refine ⟨⟨Bytes.ascii "user_id,first_name,last_name,username,is_premium\n",
    (sorted collector.userDict).map fun m => userRow m.1 m.2, by decide, hrecords⟩, ?_, ?_⟩
  · rw [DictFile.bytes, ← List.flatMap_def]
    rfl
  · intro id
    have hback : ((sorted collector.userDict).map fun m => userRow m.1 m.2).filterMap wellFormed =
        sorted collector.userDict := by
      rw [List.filterMap_map, List.filterMap_congr (g := some), List.filterMap_some]
      exact fun member hm => wellFormed_userRow (hwritable member (hperm.mem_iff.mp hm))
    have hnodup : ((sorted collector.userDict).map Prod.fst).Nodup :=
      (hperm.map Prod.fst).nodup_iff.mpr collector.userDict.nodup
    rw [hback]
    ext user
    rw [Assoc.last?_eq_some hnodup, Assoc.find?_eq_some, hperm.mem_iff]

end Written

section Kept

-- No row that the loop comes to throws.
def Convertible (size : ℕ) (records : List Bytes) : Prop :=
  ∀ parts ∈ rows size (front records), stoll (parts.getD 0 []) ≠ none

-- The members that the loop takes in, one after the other.
def loaded (records : List Bytes) : List (ℤ × User) := (rows 5 (front records)).filterMap userEntry

theorem mapM_eq_some_filterMap {β γ : Type} {f : β → Option γ} {l : List β}
    (h : ∀ b ∈ l, f b ≠ none) : l.mapM f = some (l.filterMap f) := by
  induction l with
  | nil => rfl
  | cons b l ih =>
    obtain ⟨c, hc⟩ := Option.ne_none_iff_exists'.mp (h b List.mem_cons_self)
    rw [List.mapM_cons, hc, ih fun d hd => h d (List.mem_cons_of_mem _ hd),
      List.filterMap_cons_some hc]
    rfl

theorem mapM_eq_none {β γ : Type} {f : β → Option γ} {l : List β} {b : β} (hb : b ∈ l)
    (h : f b = none) : l.mapM f = none := by
  induction l with
  | nil => cases hb
  | cons c l ih =>
    rw [List.mapM_cons]
    rcases List.mem_cons.mp hb with rfl | hb
    · rw [h]
      rfl
    · rw [ih hb]
      cases f c <;> rfl

variable {α : Type} {size : ℕ} {entry : List Bytes → Option (ℤ × α)}

theorem loadDict_of_convertible (hentry : ∀ parts, entry parts = none ↔ stoll (parts.getD 0 []) = none)
    {file : DictFile} (h : Convertible size file.records) :
    loadDict size entry (some file.bytes) =
      some (Assoc.empty.insertAll ((rows size (front file.records)).filterMap entry)) := by
  rw [loadDict, DictFile.bytes, Csv.readRow_append file.header_isRecord]
  rw [loadRows_flatten size entry _ _ file.records_isRecord, mapM_eq_some_filterMap]
  · rfl
  · exact fun parts hparts hnone => h parts hparts ((hentry parts).mp hnone)

theorem loadDict_of_not_convertible
    (hentry : ∀ parts, entry parts = none ↔ stoll (parts.getD 0 []) = none)
    {file : DictFile} (h : ¬Convertible size file.records) :
    loadDict size entry (some file.bytes) = none := by
  simp only [Convertible, not_forall, ne_eq, not_not] at h
  obtain ⟨parts, hparts, hnone⟩ := h
  rw [loadDict, DictFile.bytes, Csv.readRow_append file.header_isRecord,
    loadRows_flatten size entry _ _ file.records_isRecord,
    mapM_eq_none hparts ((hentry parts).mpr hnone)]
  rfl

theorem userEntry_eq_none (parts : List Bytes) :
    userEntry parts = none ↔ stoll (parts.getD 0 []) = none := Option.map_eq_none_iff

theorem chatEntry_eq_none (parts : List Bytes) :
    chatEntry parts = none ↔ stoll (parts.getD 0 []) = none := Option.map_eq_none_iff

-- Construction takes in the last well-formed record of each id, and the destructor after it
-- leaves them all in the file.
def Kept (file : DictFile) (files : Files) : Prop :=
  ∃ collector after, construct files = (some collector, after) ∧
    (∀ id user, Assoc.last? (file.records.filterMap wellFormed) id = some user →
      collector.userDict.find? id = some user) ∧
    ∃ file' : DictFile, (destruct collector after).userDict = some file'.bytes ∧
      ∀ id user, Assoc.last? (file.records.filterMap wellFormed) id = some user →
        Assoc.last? (file'.records.filterMap wellFormed) id = some user

variable (file : DictFile) (chats : Option DictFile) (chatData : Option Bytes)

def filesOf : Files := ⟨chatData, some file.bytes, chats.map DictFile.bytes⟩

-- Each record in front of the first one that does not parse has an id that converts, in both
-- files, and among these records the last one of an id is the last well-formed one of the file.
def Readable : Prop :=
  Convertible 5 file.records ∧ (∀ chatFile, chats = some chatFile → Convertible 2 chatFile.records) ∧
    ∀ id user, Assoc.last? (file.records.filterMap wellFormed) id = some user →
      Assoc.last? (loaded file.records) id = some user

theorem find?_insertAll_empty (members : List (ℤ × User)) (id : ℤ) :
    (Assoc.empty.insertAll members).find? id = Assoc.last? members id := by
  rw [Assoc.find?_insertAll, Assoc.find?_empty, Option.or_none]

theorem writable_of_mem_loaded {records : List Bytes} {member : ℤ × User}
    (h : member ∈ (Assoc.empty.insertAll (loaded records)).members) : Writable member := by
  have hfound := Assoc.find?_eq_some.mpr h
  rw [find?_insertAll_empty, Assoc.last?, Option.map_eq_some_iff] at hfound
  obtain ⟨found, hfind, huser⟩ := hfound
  have hkey : found.1 = member.1 := by simpa using List.find?_some hfind
  have hfound : found = member := Prod.ext hkey huser
  have hmem := List.mem_reverse.mp (List.mem_of_find?_eq_some hfind)
  obtain ⟨parts, -, hentry⟩ := List.mem_filterMap.mp hmem
  exact hfound ▸ writable_of_userEntry hentry

theorem construct_eq :
    construct (filesOf file chats chatData) =
      match loadUserDict (some file.bytes), loadChatDict (chats.map DictFile.bytes) with
      | some userDict, some chatDict =>
        (some ⟨userDict, chatDict⟩, { filesOf file chats chatData with
          chatData := some (chatData.getD chatDataHeader) })
      | _, _ =>
        (none, { filesOf file chats chatData with
          chatData := some (chatData.getD chatDataHeader) }) := by
  rw [construct]
  dsimp only [filesOf]
  cases loadUserDict (some file.bytes) with
  | none => rfl
  | some userDict => cases loadChatDict (chats.map DictFile.bytes) <;> rfl

variable {file chats chatData}

theorem loadChatDict_isSome :
    (∃ chatDict, loadChatDict (chats.map DictFile.bytes) = some chatDict) ↔
      ∀ chatFile, chats = some chatFile → Convertible 2 chatFile.records := by
  cases chats with
  | none => exact iff_of_true ⟨_, rfl⟩ fun _ heq => absurd heq.symm (Option.some_ne_none _)
  | some chatFile =>
    constructor
    · rintro ⟨chatDict, hload⟩ chatFile' heq
      cases heq
      by_contra hnot
      rw [Option.map_some, loadChatDict, loadDict_of_not_convertible chatEntry_eq_none hnot] at hload
      cases hload
    · intro h
      exact ⟨_, loadDict_of_convertible chatEntry_eq_none (h chatFile rfl)⟩

-- A dictionary file keeps all it has just when nothing that is read throws, and nothing well
-- formed stands behind a record that does not parse, unless it repeats what was in front.
theorem kept_iff (file : DictFile) (chats : Option DictFile) (chatData : Option Bytes) :
    Kept file (filesOf file chats chatData) ↔ Readable file chats := by
  rw [Kept, construct_eq]
  by_cases hconvertible : Convertible 5 file.records
  · have hload : loadUserDict (some file.bytes) =
        some (Assoc.empty.insertAll (loaded file.records)) :=
      loadDict_of_convertible userEntry_eq_none hconvertible
    rw [hload]
    constructor
    · rintro ⟨collector, after, hconstruct, hfound, -⟩
      cases hchats : loadChatDict (chats.map DictFile.bytes) with
      | none =>
        rw [hchats] at hconstruct
        cases hconstruct
      | some chatDict =>
        rw [hchats] at hconstruct
        cases hconstruct
        refine ⟨hconvertible, loadChatDict_isSome.mp ⟨chatDict, hchats⟩, fun id user hlast => ?_⟩
        rw [← find?_insertAll_empty]
        exact hfound id user hlast
    · rintro ⟨-, hchats, hlast⟩
      obtain ⟨chatDict, hchatDict⟩ := loadChatDict_isSome.mpr hchats
      rw [hchatDict]
      have hfound : ∀ id user, Assoc.last? (file.records.filterMap wellFormed) id = some user →
          (Assoc.empty.insertAll (loaded file.records)).find? id = some user := by
        intro id user h
        rw [find?_insertAll_empty]
        exact hlast id user h
      obtain ⟨file', hfile', hwritten⟩ :=
        exists_written ⟨Assoc.empty.insertAll (loaded file.records), chatDict⟩
          { filesOf file chats chatData with chatData := some (chatData.getD chatDataHeader) }
          fun member hmember => writable_of_mem_loaded hmember
      refine ⟨_, _, rfl, hfound, file', hfile', fun id user h => ?_⟩
      rw [hwritten]
      exact hfound id user h
  · have hload : loadUserDict (some file.bytes) = none :=
      loadDict_of_not_convertible userEntry_eq_none hconvertible
    rw [hload]
    refine iff_of_false ?_ fun hreadable => hconvertible hreadable.1
    rintro ⟨collector, after, hconstruct, -⟩
    cases hconstruct

def line (text : String) : Bytes := Bytes.ascii text ++ [10]

def header : Bytes := line "user_id,first_name,last_name,username,is_premium"

-- The second record quotes a part of a field; the third is never read.
def quotedPart : DictFile :=
  ⟨header, [line "1,Ann,,ann,0", line "2,B\"e\"n,,ben,0", line "3,Cy,,cy,1"], by decide, by decide⟩

theorem kept_quoted_part_not :
    ¬∀ (file : DictFile) (chats : Option DictFile) (chatData : Option Bytes),
      Kept file (filesOf file chats chatData) := by
  intro h
  obtain ⟨collector, after, hconstruct, hfound, -⟩ := h quotedPart none none
  have hconvertible : Convertible 5 quotedPart.records := by
    unfold Convertible
    decide +kernel
  have hload : loadUserDict (some quotedPart.bytes) =
      some (Assoc.empty.insertAll (loaded quotedPart.records)) :=
    loadDict_of_convertible userEntry_eq_none hconvertible
  rw [construct_eq, hload] at hconstruct
  cases hconstruct
  have hlost := hfound 3 ⟨Bytes.ascii "Cy", none, some (Bytes.ascii "cy"), some true⟩
    (by decide +kernel)
  rw [find?_insertAll_empty] at hlost
  exact absurd hlost (by decide +kernel)

end Kept

end Glider.Ml
