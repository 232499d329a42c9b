import Glider.Llm.ModelPicker
import Mathlib.Data.List.Range

namespace Glider.Llm.ModelPicker

open Glider.Lib
open Bytes (ascii)
open KeyboardBuilder (addKeyboard)

section Worlds

variable (atoi : SimpleAtoi)

-- A picker is opened, a button is pressed, a press that has passed the checks goes on, or a model
-- is chosen by its name.
inductive Event where
  | start (now : Time) (chatId : ChatId) (user : UserId) (modelIds : ModelIds)
  | press (now again : Time) (query : CallbackQuery)
  | resume (i : ℕ)
  | setModel (chatId : ChatId) (model : Bytes)

-- The store, the pages that were rendered in the chats, and the presses that are on their way. The
-- listener runs in two threads.
structure World where
  store : Store
  rendered : List (ChatId × Page)
  pending : List Press

def World.initial : World := ⟨⟨fun _ => none, fun _ => none, 1⟩, [], []⟩

def pageOf : Queued → Option (ChatId × Page)
  | .edit message _ (some page) => some (message.chatId, page)
  | _ => none

def step (w : World) : Event → World
  | .start now chatId user modelIds =>
    let (store, page) := startPicker now chatId user modelIds w.store
    { w with store, rendered := (chatId, page) :: w.rendered }
  | .press now again query =>
    match check now again query w.store with
    | (store, .error _) => { w with store }
    | (store, .ok press) => { w with store, pending := press :: w.pending }
  | .resume i =>
    match w.pending[i]? with
    | none => w
    | some press =>
      let (store, queued) := act atoi w.store press
      ⟨store, queued.filterMap pageOf ++ w.rendered, w.pending.eraseIdx i⟩
  | .setModel chatId model => { w with store := setSelectedModel w.store chatId model }

def run (w : World) (events : List Event) : World := events.foldl (step atoi) w

end Worlds

section Data

theorem consumePrefix_append (expected rest : Bytes) :
    consumePrefix expected (expected ++ rest) = some rest := by
  rw [consumePrefix, if_pos (List.prefix_append ..), List.drop_left]

theorem consumePrefix_eq_some {expected data rest : Bytes}
    (h : consumePrefix expected data = some rest) : data = expected ++ rest := by
  obtain ⟨⟨tail, rfl⟩, hrest⟩ := Option.ite_none_right_eq_some.mp h
  rw [List.drop_left, Option.some.injEq] at hrest
  rw [hrest]

theorem splitGeneration_append {generation : Bytes} (h : 58 ∉ generation) (rest : Bytes) :
    splitGeneration (generation ++ 58 :: rest) = some (generation, rest) := by
  have hall : ∀ b ∈ generation, decide (b ≠ 58) = true := fun b hb =>
    decide_eq_true fun heq => h (heq ▸ hb)
  rw [splitGeneration, if_pos (by simp), List.takeWhile_append_of_pos hall,
    List.dropWhile_append_of_pos hall]
  simp

-- The generation that the data of a button names, and what is asked for.
def parsed (data : Bytes) : Option (Bytes × Bytes) :=
  (consumePrefix kCallbackPrefix data).bind splitGeneration

theorem parsed_of_colon {generation : Bytes} (h : 58 ∉ generation) (rest : Bytes) :
    parsed (kCallbackPrefix ++ generation ++ 58 :: rest) = some (generation, rest) := by
  rw [parsed, List.append_assoc, consumePrefix_append, Option.bind_some, splitGeneration_append h]

theorem parsed_selectData {generation : Bytes} (h : 58 ∉ generation) (i : ℕ) :
    parsed (selectData generation i) = some (generation, ascii "s:" ++ Decimal.digits i) := by
  have hcolon : ascii ":s:" = 58 :: ascii "s:" := by decide
  rw [selectData, hcolon, List.append_assoc, List.cons_append, parsed_of_colon h]

theorem parsed_pageData {generation : Bytes} (h : 58 ∉ generation) (page : ℕ) :
    parsed (pageData generation page) = some (generation, ascii "p:" ++ Decimal.digits page) := by
  have hcolon : ascii ":p:" = 58 :: ascii "p:" := by decide
  rw [pageData, hcolon, List.append_assoc, List.cons_append, parsed_of_colon h]

end Data

-- A press on the live picker of its chat, by who has opened it and in time.
structure Accepted (s : Store) (now : Time) (query : CallbackQuery) (press : Press) : Prop where
  query_eq : press.query = query
  message : query.message = some press.msg
  asked : parsed query.data = some (press.generation, press.data)
  live : s.pickers press.msg.chatId = some press.state
  generation : press.state.generation = press.generation
  opener : query.from_ = some press.state.initiatingUserId
  inTime : now < press.state.expiresAt

section Outcomes

variable {atoi : SimpleAtoi} {now again : Time} {query : CallbackQuery} {s : Store} {press : Press}

-- Everything that the checks can come to.
inductive Checked (now : Time) (query : CallbackQuery) (s : Store) :
    Store × Except (List Queued) Press → Prop where
  | answered {queued : List Queued} : Checked now query s (s, .error queued)
  | expired {chatId : ChatId} {queued : List Queued} :
      Checked now query s
        ({ s with pickers := Function.update s.pickers chatId none }, .error queued)
  | passed {press : Press} (h : Accepted s now query press) : Checked now query s (s, .ok press)

theorem checked (now again : Time) (query : CallbackQuery) (s : Store) :
    Checked now query s (check now again query s) := by
  unfold check
  split
  · exact .answered
  · exact .answered
  · next data msg hprefix hmsg =>
    cases hsplit : splitGeneration data with
    | none => exact .answered
    | some pair =>
      obtain ⟨generation, rest⟩ := pair
      cases hlive : s.pickers msg.chatId with
      | none => exact .answered
      | some state =>
        simp only
        split
        · split
          · exact .expired
          · exact .answered
        · next hvalid =>
          obtain ⟨hgeneration, htime⟩ := not_or.mp hvalid
          split
          · exact .answered
          · next hopener =>
            exact .passed ⟨rfl, hmsg, Option.bind_eq_some_iff.mpr ⟨data, hprefix, hsplit⟩,
              hlive, not_not.mp hgeneration, not_not.mp hopener, Nat.lt_of_not_le htime⟩

theorem check_of_accepted (again : Time) (h : Accepted s now query press) :
    check now again query s = (s, .ok press) := by
  obtain ⟨rfl, hmsg, hasked, hlive, hgeneration, hopener, htime⟩ := h
  obtain ⟨data, hprefix, hsplit⟩ := Option.bind_eq_some_iff.mp hasked
  have hvalid : ¬ press.state.expiresAt ≤ now := Nat.not_le.mpr htime
  simp only [check, hprefix, hmsg, hsplit, hlive, hgeneration, hopener, ne_eq, not_true_eq_false,
    false_or, if_neg hvalid, if_false]

-- Everything that a press can do after its checks.
inductive Acted (atoi : SimpleAtoi) (s : Store) (press : Press) : Store × List Queued → Prop where
  | answered {queued : List Queued} (h : queued.filterMap pageOf = []) :
      Acted atoi s press (s, queued)
  | selected {rest model : Bytes} {index : ℕ} (hdata : press.data = ascii "s:" ++ rest)
      (hread : atoi.read rest = some index)
      (hmodel : press.state.modelIds.items[index]? = some model) :
      Acted atoi s press
        ((setSelectedModel s press.msg.chatId model).change press.msg.chatId press.generation
            fun _ => none,
          [.edit press.msg (ascii "Selected model: " ++ model) none,
            .answer press.query.id (ascii "Model selected.") false])
  | turned {rest : Bytes} {page : ℕ} (hdata : press.data = ascii "p:" ++ rest)
      (hread : atoi.read rest = some page) :
      Acted atoi s press
        (s.change press.msg.chatId press.generation fun state => some { state with page := page },
          [.edit press.msg (press.msg.text.getD [])
              (some ⟨press.state.modelIds, page, press.generation⟩),
            .answer press.query.id [] false])

theorem acted (atoi : SimpleAtoi) (s : Store) (press : Press) :
    Acted atoi s press (act atoi s press) := by
  unfold act
  cases hselect : consumePrefix (ascii "s:") press.data with
  | some data =>
    have hdata := consumePrefix_eq_some hselect
    cases hread : (atoi.read data).bind fun index => press.state.modelIds.items[index]? with
    | none =>
      simp only [select, hread]
      exact .answered rfl
    | some model =>
      obtain ⟨index, hindex, hmodel⟩ := Option.bind_eq_some_iff.mp hread
      simp only [select, hread]
      exact .selected hdata hindex hmodel
  | none =>
    cases hpage : consumePrefix (ascii "p:") press.data with
    | none => exact .answered rfl
    | some data =>
      have hdata := consumePrefix_eq_some hpage
      cases hread : atoi.read data with
      | none =>
        simp only [turnPage, hread]
        exact .answered rfl
      | some page =>
        simp only [turnPage, hread]
        exact .turned hdata hread

-- A picker stays as it is, or goes, or gets another page.
theorem pickers_change {chatId c : ChatId} {generation : Bytes}
    {f : ModelPickerState → Option ModelPickerState} {state : ModelPickerState}
    (h : (s.change chatId generation f).pickers c = some state) :
    s.pickers c = some state ∨ ∃ old, s.pickers c = some old ∧ f old = some state := by
  unfold Store.change at h
  split at h
  · next old hold =>
    split at h
    · dsimp only at h
      obtain rfl | hne := eq_or_ne c chatId
      · rw [Function.update_self] at h
        exact .inr ⟨old, hold, h⟩
      · rw [Function.update_of_ne hne] at h
        exact .inl h
    · exact .inl h
  · exact .inl h

theorem selectedModel_change (s : Store) (chatId : ChatId) (generation : Bytes)
    (f : ModelPickerState → Option ModelPickerState) :
    (s.change chatId generation f).selectedModel = s.selectedModel := by
  unfold Store.change
  split
  · split <;> rfl
  · rfl

theorem generationCounter_change (s : Store) (chatId : ChatId) (generation : Bytes)
    (f : ModelPickerState → Option ModelPickerState) :
    (s.change chatId generation f).generationCounter = s.generationCounter := by
  unfold Store.change
  split
  · split <;> rfl
  · rfl

theorem act_selects {i : ℕ} (hdata : press.data = ascii "s:" ++ Decimal.digits i)
    (hi : i < press.state.modelIds.items.length) :
    (act atoi s press).1.selectedModel =
      Function.update s.selectedModel press.msg.chatId (some press.state.modelIds.items[i]) := by
  have hread : (atoi.read (Decimal.digits i)).bind
      (fun index => press.state.modelIds.items[index]?) = some press.state.modelIds.items[i] := by
    have hsmall : i < 2 ^ 64 :=
      Nat.lt_trans hi (Nat.lt_trans press.state.modelIds.size_lt (by decide))
    rw [atoi.read_digits i hsmall, Option.bind_some, List.getElem?_eq_getElem hi]
  rw [act, hdata, consumePrefix_append]
  simp only [select, hread, selectedModel_change]
  rfl

theorem act_turns {n : ℕ} (hdata : press.data = ascii "p:" ++ Decimal.digits n) (hn : n < 2 ^ 64) :
    act atoi s press =
      (s.change press.msg.chatId press.generation fun state => some { state with page := n },
        [.edit press.msg (press.msg.text.getD [])
            (some ⟨press.state.modelIds, n, press.generation⟩),
          .answer press.query.id [] false]) := by
  have hother : consumePrefix (ascii "s:") (ascii "p:" ++ Decimal.digits n) = none :=
    if_neg fun hp => absurd (List.cons_prefix_cons.mp hp).1 (by decide)
  rw [act, hdata, hother, consumePrefix_append]
  simp only [turnPage, atoi.read_digits n hn]

end Outcomes

section Runs

variable {atoi : SimpleAtoi} {w : World}

-- What the generation stands for: the models of the picker that was opened with its number.
def Known (models : ℕ → ModelIds) (counter : ℕ) (generation : Bytes) (ids : ModelIds) : Prop :=
  ∃ k < counter, generation = Hexadecimal.digits k ∧ ids = models k

namespace Known

variable {models : ℕ → ModelIds} {counter : ℕ} {generation : Bytes} {ids ids' : ModelIds}

theorem agree (h : Known models counter generation ids)
    (h' : Known models counter generation ids') : ids = ids' := by
  obtain ⟨k, -, hk, rfl⟩ := h
  obtain ⟨k', -, hk', rfl⟩ := h'
  rw [Hexadecimal.digits_injective (hk.symm.trans hk')]

theorem opened (models : ℕ → ModelIds) (counter : ℕ) (ids : ModelIds) :
    Known (Function.update models counter ids) (counter + 1) (Hexadecimal.digits counter) ids :=
  ⟨counter, Nat.lt_succ_self _, rfl, by rw [Function.update_self]⟩

theorem start (h : Known models counter generation ids) (newest : ModelIds) :
    Known (Function.update models counter newest) (counter + 1) generation ids := by
  obtain ⟨k, hk, hgeneration, rfl⟩ := h
  exact ⟨k, Nat.lt_succ_of_lt hk, hgeneration, (Function.update_of_ne (Nat.ne_of_lt hk) ..).symm⟩

theorem colon_not_mem (h : Known models counter generation ids) : 58 ∉ generation := by
  obtain ⟨k, -, rfl, -⟩ := h
  exact Hexadecimal.colon_not_mem_digits k

end Known

-- Pages, pickers and presses of one generation are about the same models.
structure InvOf (models : ℕ → ModelIds) (w : World) : Prop where
  rendered : ∀ chatId page, (chatId, page) ∈ w.rendered →
    Known models w.store.generationCounter page.generation page.ids ∧ page.page < 2 ^ 64
  live : ∀ chatId state, w.store.pickers chatId = some state →
    Known models w.store.generationCounter state.generation state.modelIds ∧ 0 < state.expiresAt
  pending : ∀ press ∈ w.pending,
    Known models w.store.generationCounter press.generation press.state.modelIds ∧
      parsed press.query.data = some (press.generation, press.data)

theorem InvOf.initial (models : ℕ → ModelIds) : InvOf models World.initial where
  rendered _ _ h := absurd h List.not_mem_nil
  live _ _ := nofun
  pending _ h := absurd h List.not_mem_nil

section Steps

variable {models : ℕ → ModelIds}

theorem InvOf.start (h : InvOf models w) (now : Time) (chatId : ChatId) (user : UserId)
    (modelIds : ModelIds) :
    InvOf (Function.update models w.store.generationCounter modelIds)
      (step atoi w (.start now chatId user modelIds)) := by
  refine ⟨fun c page hmem => ?_, fun c state hstate => ?_, fun press hmem => ?_⟩
  · obtain heq | hold := List.mem_cons.mp hmem
    · obtain ⟨-, rfl⟩ := Prod.mk.inj heq
      exact ⟨.opened .., Nat.two_pow_pos 64⟩
    · obtain ⟨hknown, hsmall⟩ := h.rendered c page hold
      exact ⟨hknown.start modelIds, hsmall⟩
  · change Function.update w.store.pickers chatId _ c = some state at hstate
    obtain rfl | hne := eq_or_ne c chatId
    · rw [Function.update_self, Option.some.injEq] at hstate
      subst hstate
      exact ⟨.opened .., Nat.add_pos_right now (by decide)⟩
    · rw [Function.update_of_ne hne] at hstate
      obtain ⟨hknown, hpos⟩ := h.live c state hstate
      exact ⟨hknown.start modelIds, hpos⟩
  · obtain ⟨hknown, hparsed⟩ := h.pending press hmem
    exact ⟨hknown.start modelIds, hparsed⟩

-- What is about the same pickers, or fewer, with other pages.
theorem InvOf.of_pickers (h : InvOf models w) {s : Store}
    (hcounter : s.generationCounter = w.store.generationCounter)
    (hpickers : ∀ chatId state, s.pickers chatId = some state →
      ∃ page, w.store.pickers chatId = some { state with page := page }) :
    InvOf models { w with store := s } := by
  refine ⟨fun c page hmem => ?_, fun c state hstate => ?_, fun press hmem => ?_⟩
  · exact hcounter ▸ h.rendered c page hmem
  · obtain ⟨page, hold⟩ := hpickers c state hstate
    obtain ⟨hknown, hpos⟩ := h.live c _ hold
    exact ⟨hcounter ▸ hknown, hpos⟩
  · exact hcounter ▸ h.pending press hmem

theorem InvOf.change (h : InvOf models w) (chatId : ChatId) (generation : Bytes)
    {f : ModelPickerState → Option ModelPickerState}
    (hf : ∀ old new, f old = some new → ∃ page, old = { new with page := page }) :
    InvOf models { w with store := w.store.change chatId generation f } := by
  refine h.of_pickers (generationCounter_change ..) fun c state hstate => ?_
  obtain hold | ⟨old, hold, hnew⟩ := pickers_change hstate
  · exact ⟨state.page, hold⟩
  · obtain ⟨page, rfl⟩ := hf old state hnew
    exact ⟨page, hold⟩

theorem InvOf.press (h : InvOf models w) (now again : Time) (query : CallbackQuery) :
    InvOf models (step atoi w (.press now again query)) := by
  have hchecked := checked now again query w.store
  simp only [step]
  generalize check now again query w.store = r at hchecked ⊢
  cases hchecked with
  | answered => exact h
  | expired =>
    rename_i chatId queued
    refine h.of_pickers rfl fun c state hstate => ⟨state.page, ?_⟩
    dsimp only at hstate
    obtain rfl | hne := eq_or_ne c chatId
    · rw [Function.update_self] at hstate
      cases hstate
    · rwa [Function.update_of_ne hne] at hstate
  | passed haccepted =>
    rename_i press
    refine ⟨h.rendered, h.live, fun other hmem => ?_⟩
    obtain rfl | hold := List.mem_cons.mp hmem
    · exact ⟨haccepted.generation ▸ (h.live _ _ haccepted.live).1,
        haccepted.query_eq ▸ haccepted.asked⟩
    · exact h.pending other hold

theorem InvOf.resume (h : InvOf models w) (i : ℕ) : InvOf models (step atoi w (.resume i)) := by
  simp only [step]
  cases hpress : w.pending[i]? with
  | none => exact h
  | some press =>
    obtain ⟨hknown, hparsed⟩ := h.pending press (List.mem_of_getElem? hpress)
    have hacted := acted atoi w.store press
    simp only
    generalize act atoi w.store press = r at hacted ⊢
    have hrest : ∀ press ∈ w.pending.eraseIdx i, press ∈ w.pending := fun press hmem =>
      List.mem_of_mem_eraseIdx hmem
    cases hacted with
    | answered hnone =>
      rw [hnone]
      exact ⟨h.rendered, h.live, fun press hmem => h.pending press (hrest press hmem)⟩
    | selected hdata hread hmodel =>
      rename_i rest model index
      have hset : InvOf models
          { w with store := setSelectedModel w.store press.msg.chatId model } :=
        h.of_pickers rfl fun _ state hstate => ⟨state.page, hstate⟩
      have hafter := hset.change press.msg.chatId press.generation (f := fun _ => none) nofun
      exact ⟨hafter.rendered, hafter.live, fun press hmem =>
        hafter.pending press (hrest press hmem)⟩
    | turned hdata hread =>
      rename_i rest page
      have hafter := h.change press.msg.chatId press.generation
        (f := fun state => some { state with page := page })
        fun old new hnew => ⟨old.page, by rw [← Option.some.inj hnew]⟩
      refine ⟨fun c page' hmem => ?_, hafter.live, fun press hmem =>
        hafter.pending press (hrest press hmem)⟩
      obtain heq | hold := List.mem_cons.mp hmem
      · obtain ⟨-, rfl⟩ := Prod.mk.inj heq
        dsimp only
        rw [generationCounter_change]
        exact ⟨hknown, atoi.read_lt _ _ hread⟩
      · exact hafter.rendered c page' hold

end Steps

def Inv (w : World) : Prop := ∃ models, InvOf models w

theorem Inv.step (h : Inv w) (e : Event) : Inv (ModelPicker.step atoi w e) := by
  obtain ⟨models, h⟩ := h
  cases e with
  | start now chatId user modelIds => exact ⟨_, h.start now chatId user modelIds⟩
  | press now again query => exact ⟨models, h.press now again query⟩
  | resume i => exact ⟨models, h.resume i⟩
  | setModel chatId model =>
    exact ⟨models, h.of_pickers rfl fun _ state hstate => ⟨state.page, hstate⟩⟩

theorem Inv.run (h : Inv w) (events : List Event) : Inv (ModelPicker.run atoi w events) := by
  induction events generalizing w with
  | nil => exact h
  | cons e rest ih => exact ih (h.step e)

theorem change_of_live {s : Store} {chatId : ChatId} {state : ModelPickerState}
    (h : s.pickers chatId = some state) (f : ModelPickerState → Option ModelPickerState) :
    s.change chatId state.generation f =
      { s with pickers := Function.update s.pickers chatId (f state) } := by
  rw [Store.change, h]
  exact if_pos rfl

section Rendered

variable {chatId : ChatId} {p : Page} {press : Press}

theorem lt_of_mem_indices {i : ℕ} (hi : i ∈ p.indices) : i < p.ids.items.length := by
  rw [Page.indices, List.mem_range'_1] at hi
  have hstop : p.stop ≤ p.ids.items.length := Nat.min_le_right ..
  omega

theorem data_of_parsed {rest : Bytes} (h : Inv w) (hpress : press ∈ w.pending)
    (hdata : parsed press.query.data = some (press.generation, rest)) : press.data = rest := by
  obtain ⟨models, h⟩ := h
  have hparsed := (h.pending press hpress).2
  rw [hdata, Option.some.injEq] at hparsed
  exact (Prod.mk.inj hparsed).2.symm

theorem agree (h : Inv w) (hmem : (chatId, p) ∈ w.rendered) (hpress : press ∈ w.pending)
    (hsame : press.generation = p.generation) :
    press.state.modelIds = p.ids ∧ 58 ∉ p.generation ∧ p.page < 2 ^ 64 := by
  obtain ⟨models, h⟩ := h
  obtain ⟨hknown, hsmall⟩ := h.rendered chatId p hmem
  have hpressed := (h.pending press hpress).1
  rw [hsame] at hpressed
  exact ⟨hpressed.agree hknown, hknown.colon_not_mem, hsmall⟩

theorem press_selection (h : Inv w) (hmem : (chatId, p) ∈ w.rendered) (hpress : press ∈ w.pending)
    (hsame : press.generation = p.generation) {i : ℕ} (hi : i ∈ p.indices)
    (hdata : press.query.data = (p.selection i).callbackData) :
    ∃ model, p.ids.items[i]? = some model ∧
      (act atoi w.store press).1.selectedModel =
        Function.update w.store.selectedModel press.msg.chatId (some model) := by
  have hlt := lt_of_mem_indices hi
  obtain ⟨hids, hcolon, -⟩ := agree h hmem hpress hsame
  have hrest : press.data = ascii "s:" ++ Decimal.digits i := by
    refine data_of_parsed h hpress ?_
    rw [hdata, hsame]
    exact parsed_selectData hcolon i
  refine ⟨p.ids.items[i], List.getElem?_eq_getElem hlt, ?_⟩
  rw [act_selects hrest (hids ▸ hlt)]
  simp only [hids]

theorem press_page (atoi : SimpleAtoi) (h : Inv w) (hmem : (chatId, p) ∈ w.rendered)
    (hpress : press ∈ w.pending) (hsame : press.generation = p.generation) {n : ℕ} (hn : n < 2 ^ 64)
    (hdata : press.query.data = pageData p.generation n) :
    act atoi w.store press =
      (w.store.change press.msg.chatId p.generation fun state => some { state with page := n },
        [.edit press.msg (press.msg.text.getD []) (some ⟨p.ids, n, p.generation⟩),
          .answer press.query.id [] false]) := by
  obtain ⟨hids, hcolon, -⟩ := agree h hmem hpress hsame
  have hrest : press.data = ascii "p:" ++ Decimal.digits n := by
    refine data_of_parsed h hpress ?_
    rw [hdata, hsame]
    exact parsed_pageData hcolon n
  rw [act_turns hrest hn, hsame, hids]

theorem addKeyboard_single (keyboard : Keyboard) (b : Button) :
    addKeyboard 2 keyboard [b] = keyboard ++ [[b]] := by
  simp [addKeyboard, KeyboardBuilder.rows]

theorem addKeyboard_pair (keyboard : Keyboard) (b b' : Button) :
    addKeyboard 2 keyboard [b, b'] = keyboard ++ [[b, b']] := by
  simp [addKeyboard, KeyboardBuilder.rows]

-- The selections come first, in order, and the buttons that lead to other pages come last.
theorem flatten_buildModelPage (p : Page) :
    (buildModelPage p).flatten =
      p.indices.map p.selection ++ p.prevButton.toList ++ p.nextButton.toList := by
  have hselections (l : List ℕ) (keyboard : Keyboard) :
      (l.foldl (fun keyboard i => addKeyboard 2 keyboard [p.selection i]) keyboard).flatten =
        keyboard.flatten ++ l.map p.selection := by
    induction l generalizing keyboard with
    | nil => simp
    | cons i rest ih =>
      rw [List.foldl_cons, ih, addKeyboard_single]
      simp
  have hflat := hselections p.indices []
  unfold buildModelPage
  simp only
  generalize p.indices.foldl (fun keyboard i => addKeyboard 2 keyboard [p.selection i]) [] =
    keyboard at hflat ⊢
  rw [List.flatten_nil, List.nil_append] at hflat
  cases p.prevButton <;> cases p.nextButton <;>
    simp [addKeyboard_single, addKeyboard_pair, hflat]

end Rendered

-- The pages that are seen in a chat from one on by pressing what leads to the next one, whatever
-- else happens in between. The last of them is `q`.
inductive Walk (atoi : SimpleAtoi) (chatId : ChatId) : World → Page → List Page → Page → Prop where
  | here {w : World} {p : Page} : Walk atoi chatId w p [p] p
  | elsewhere {w : World} {p q : Page} {pages : List Page} {e : Event}
      (h : Walk atoi chatId (ModelPicker.step atoi w e) p pages q) : Walk atoi chatId w p pages q
  | next {w : World} {p p' q : Page} {pages : List Page} {b : Button} {i : ℕ} {press : Press}
      {text : Bytes} (hb : p.nextButton = some b) (hpress : w.pending[i]? = some press)
      (hchat : press.msg.chatId = chatId) (hsame : press.generation = p.generation)
      (hdata : press.query.data = b.callbackData)
      (hedit : .edit press.msg text (some p') ∈ (act atoi w.store press).2)
      (h : Walk atoi chatId (ModelPicker.step atoi w (.resume i)) p' pages q) :
      Walk atoi chatId w p (p :: pages) q

section Walks

variable {chatId : ChatId} {p q : Page}

-- Pages that do not go over the end of the list.
def Page.Within (p : Page) : Prop := p.page * kPageSize ≤ p.ids.items.length

theorem start_of_within (h : p.Within) : p.start = p.page * kPageSize := by
  have hlt := p.ids.size_lt
  unfold Page.Within at h
  exact u64_of_lt (by omega)

theorem stop_of_within (h : p.Within) :
    p.stop = min (p.page * kPageSize + kPageSize) p.ids.items.length := by
  have hlt := p.ids.size_lt
  rw [Page.stop, start_of_within h, u64_of_lt]
  unfold Page.Within at h
  simp only [kPageSize] at h ⊢
  omega

-- The page behind one that has such a button.
def Page.following (p : Page) : Page := ⟨p.ids, u64 (p.page + 1), p.generation⟩

theorem within_following (h : p.Within) (hstop : p.stop < p.ids.items.length) :
    p.following.Within ∧ p.following.start = p.stop := by
  have hlt := p.ids.size_lt
  rw [stop_of_within h] at hstop ⊢
  have hpage : u64 (p.page + 1) = p.page + 1 := by
    refine u64_of_lt ?_
    unfold Page.Within at h
    simp only [kPageSize] at h
    omega
  have hwithin : p.following.Within := by
    simp only [Page.Within, Page.following, hpage, kPageSize] at hstop ⊢
    omega
  refine ⟨hwithin, ?_⟩
  rw [start_of_within hwithin]
  simp only [Page.following, hpage, kPageSize] at hstop ⊢
  omega

theorem start_le_stop (h : p.Within) : p.start ≤ p.stop := by
  rw [start_of_within h, stop_of_within h]
  exact Nat.le_min.mpr ⟨Nat.le_add_right .., h⟩

theorem start_lt_stop (h : p.Within) (hstop : p.stop < p.ids.items.length) : p.start < p.stop := by
  rw [stop_of_within h] at hstop ⊢
  rw [start_of_within h]
  simp only [kPageSize] at hstop ⊢
  omega

theorem walk_following {i : ℕ} {p' : Page} {b : Button} {press : Press} {text : Bytes} (h : Inv w)
    (hmem : (chatId, p) ∈ w.rendered) (hb : p.nextButton = some b)
    (hpress : w.pending[i]? = some press) (hchat : press.msg.chatId = chatId)
    (hsame : press.generation = p.generation) (hdata : press.query.data = b.callbackData)
    (hedit : .edit press.msg text (some p') ∈ (act atoi w.store press).2) :
    p' = p.following ∧ (chatId, p') ∈ (ModelPicker.step atoi w (.resume i)).rendered := by
  obtain ⟨-, hbutton⟩ := Option.ite_none_right_eq_some.mp hb
  obtain rfl := Option.some.inj hbutton
  have hact := press_page atoi h hmem (List.mem_of_getElem? hpress) hsame
    (Nat.mod_lt _ (Nat.two_pow_pos 64)) hdata
  rw [hact] at hedit
  obtain heq | hrest := List.mem_cons.mp hedit
  · obtain ⟨-, -, hpage⟩ := Queued.edit.inj heq
    obtain rfl := Option.some.inj hpage
    refine ⟨rfl, ?_⟩
    simp only [ModelPicker.step, hpress, hact, List.filterMap_cons, pageOf, hchat]
    exact List.mem_cons_self
  · cases List.mem_singleton.mp hrest

theorem rendered_subset (w : World) (e : Event) :
    w.rendered ⊆ (ModelPicker.step atoi w e).rendered := by
  cases e with
  | start now chatId user modelIds => exact List.subset_cons_self ..
  | press now again query =>
    simp only [ModelPicker.step]
    split <;> exact List.Subset.refl _
  | resume i =>
    simp only [ModelPicker.step]
    split
    · exact List.Subset.refl _
    · exact List.subset_append_right ..
  | setModel chatId model => exact List.Subset.refl _

theorem range'_join {a b c : ℕ} (hab : a ≤ b) (hbc : b ≤ c) :
    List.range' a (b - a) ++ List.range' b (c - b) = List.range' a (c - a) := by
  have hb : b = a + (b - a) := by omega
  have hc : c - a = b - a + (c - b) := by omega
  rw [hc, List.range'_append_1.symm, ← hb]

-- What the pages of a walk show, one after the other.
theorem indices_of_walk {pages : List Page} (h : Inv w) (hmem : (chatId, p) ∈ w.rendered)
    (hwithin : p.Within) (hwalk : Walk atoi chatId w p pages q) :
    pages.flatMap Page.indices = List.range' p.start (q.stop - p.start) ∧ q.ids = p.ids ∧
      p.start ≤ q.stop := by
  induction hwalk with
  | here => exact ⟨by simp [Page.indices], rfl, start_le_stop hwithin⟩
  | elsewhere hwalk ih => exact ih (h.step _) (rendered_subset _ _ hmem) hwithin
  | next hb hpress hchat hsame hdata hedit hwalk ih =>
    rename_i w p p' q pages b i press text
    have hstop := (Option.ite_none_right_eq_some.mp hb).1
    obtain ⟨rfl, hmem'⟩ := walk_following h hmem hb hpress hchat hsame hdata hedit
    obtain ⟨hnext, hstart⟩ := within_following hwithin hstop
    obtain ⟨hindices, hids, hle⟩ := ih (h.step _) hmem' hnext
    rw [hstart] at hindices hle
    have hfirst := start_le_stop hwithin
    refine ⟨?_, hids, Nat.le_trans hfirst hle⟩
    rw [List.flatMap_cons, hindices, Page.indices, range'_join hfirst hle]

-- A walk can be gone to its end as long as the picker is live.
theorem exists_walk {state : ModelPickerState} (h : Inv w) (hmem : (chatId, p) ∈ w.rendered)
    (hwithin : p.Within) (hlive : w.store.pickers chatId = some state)
    (hsame : state.generation = p.generation) :
    ∃ pages q, Walk atoi chatId w p pages q ∧ q.nextButton = none := by
  induction hleft : p.ids.items.length - p.start using Nat.strong_induction_on
    generalizing w p state with
  | _ left ih =>
  by_cases hstop : p.stop < p.ids.items.length
  · have hb : p.nextButton = some ⟨ascii "Next >>", pageData p.generation (u64 (p.page + 1))⟩ :=
      if_pos hstop
    have hn : u64 (p.page + 1) < 2 ^ 64 := Nat.mod_lt _ (Nat.two_pow_pos 64)
    obtain ⟨models, hmodels⟩ := h
    have hpos := (hmodels.live chatId state hlive).2
    have hcolon := (hmodels.rendered chatId p hmem).1.colon_not_mem
    let press : Press := ⟨⟨[], some state.initiatingUserId, some ⟨chatId, none⟩,
      pageData p.generation (u64 (p.page + 1))⟩, ⟨chatId, none⟩, state, p.generation,
      ascii "p:" ++ Decimal.digits (u64 (p.page + 1))⟩
    have haccepted : Accepted w.store 0 press.query press :=
      ⟨rfl, rfl, parsed_pageData hcolon _, hlive, hsame, rfl, hpos⟩
    have hpressed : ModelPicker.step atoi w (.press 0 0 press.query) =
        { w with pending := press :: w.pending } := by
      simp only [ModelPicker.step, check_of_accepted 0 haccepted]
    have hinv : Inv { w with pending := press :: w.pending } :=
      hpressed ▸ Inv.step ⟨models, hmodels⟩ (.press 0 0 press.query)
    have hact := press_page atoi hinv hmem List.mem_cons_self rfl hn rfl
    have hedit : .edit press.msg [] (some p.following) ∈ (act atoi w.store press).2 := by
      rw [hact]
      exact List.mem_cons_self
    obtain ⟨-, hmem'⟩ := walk_following (i := 0) hinv hmem hb rfl rfl rfl rfl hedit
    obtain ⟨hnext, hstart⟩ := within_following hwithin hstop
    have hstill : (ModelPicker.step atoi { w with pending := press :: w.pending }
        (.resume 0)).store.pickers chatId = some { state with page := u64 (p.page + 1) } := by
      simp only [ModelPicker.step, List.getElem?_cons_zero, hact]
      rw [← hsame, change_of_live hlive]
      exact Function.update_self ..
    have hless : p.following.ids.items.length - p.following.start < left := by
      have hadvanced := start_lt_stop hwithin hstop
      rw [hstart, ← hleft]
      exact Nat.sub_lt_sub_left (Nat.lt_trans hadvanced hstop) hadvanced
    obtain ⟨pages, q, hwalk, hlast⟩ := ih _ hless (hinv.step _) hmem' hnext hstill hsame rfl
    refine ⟨p :: pages, q, .elsewhere (e := .press 0 0 press.query) ?_, hlast⟩
    rw [hpressed]
    exact .next hb rfl rfl rfl rfl hedit hwalk
  · exact ⟨[p], p, .here, if_neg hstop⟩

end Walks

section Correctness

variable {chatId : ChatId} {p : Page}

-- What the users see of the pickers.
structure Correct (atoi : SimpleAtoi) (w : World) : Prop where
  -- A picker that is opened has a generation of its own, and shows its page 0.
  opens : ∀ now chatId user modelIds, ∃ state,
    (ModelPicker.step atoi w (.start now chatId user modelIds)).store.pickers chatId = some state ∧
      (ModelPicker.step atoi w (.start now chatId user modelIds)).rendered =
        (chatId, ⟨modelIds, 0, state.generation⟩) :: w.rendered ∧
      ∀ c p, (c, p) ∈ w.rendered → p.generation ≠ state.generation
  shown : ∀ p, (buildModelPage p).flatten =
    p.indices.map p.selection ++ p.prevButton.toList ++ p.nextButton.toList
  named : ∀ chatId p b, (chatId, p) ∈ w.rendered → b ∈ (buildModelPage p).flatten →
    ∃ rest, parsed b.callbackData = some (p.generation, rest)
  -- Every index once and in order, and all of them where there is no button to the next page.
  covered : ∀ chatId p pages q, (chatId, p) ∈ w.rendered → p.page = 0 →
    Walk atoi chatId w p pages q → pages.flatMap Page.indices = List.range q.stop ∧
      (q.nextButton = none ↔ pages.flatMap Page.indices = List.range p.ids.items.length)
  ends : ∀ chatId p state, (chatId, p) ∈ w.rendered → p.page = 0 →
    w.store.pickers chatId = some state → state.generation = p.generation →
    ∃ pages q, Walk atoi chatId w p pages q ∧ q.nextButton = none
  back : ∀ chatId p, (chatId, p) ∈ w.rendered → (p.prevButton.isSome ↔ 0 < p.page) ∧
    ∀ b press, p.prevButton = some b → press ∈ w.pending → press.generation = p.generation →
      press.query.data = b.callbackData →
      (act atoi w.store press).2.filterMap pageOf =
        [(press.msg.chatId, ⟨p.ids, p.page - 1, p.generation⟩)]
  selects : ∀ chatId p i press, (chatId, p) ∈ w.rendered → i ∈ p.indices → press ∈ w.pending →
    press.generation = p.generation → press.query.data = (p.selection i).callbackData →
    ∃ model, p.ids.items[i]? = some model ∧
      (act atoi w.store press).1.selectedModel =
        Function.update w.store.selectedModel press.msg.chatId (some model)
  -- A press is on its way from when it is accepted on, and no other press ever is.
  accepts : ∀ now again query, (∀ press, Accepted w.store now query press →
      ModelPicker.step atoi w (.press now again query) =
        { w with pending := press :: w.pending }) ∧
    ((¬ ∃ press, Accepted w.store now query press) →
      (ModelPicker.step atoi w (.press now again query)).pending = w.pending ∧
        (ModelPicker.step atoi w (.press now again query)).rendered = w.rendered)
  -- The selected model is changed by name, or by a press that is on its way.
  changes : ∀ e, (ModelPicker.step atoi w e).store.selectedModel ≠ w.store.selectedModel →
    (∃ chatId model, e = .setModel chatId model) ∨
      ∃ i press, e = .resume i ∧ w.pending[i]? = some press

theorem selectedModel_of_check (now again : Time) (query : CallbackQuery) (s : Store) :
    (check now again query s).1.selectedModel = s.selectedModel := by
  have hchecked := checked now again query s
  generalize check now again query s = r at hchecked ⊢
  cases hchecked <;> rfl

theorem named (h : Inv w) (hmem : (chatId, p) ∈ w.rendered) {b : Button}
    (hb : b ∈ (buildModelPage p).flatten) :
    ∃ rest, parsed b.callbackData = some (p.generation, rest) := by
  obtain ⟨models, h⟩ := h
  have hcolon := (h.rendered chatId p hmem).1.colon_not_mem
  rw [flatten_buildModelPage] at hb
  obtain hb | hnext := List.mem_append.mp hb
  · obtain hselection | hprev := List.mem_append.mp hb
    · obtain ⟨i, -, rfl⟩ := List.mem_map.mp hselection
      exact ⟨_, parsed_selectData hcolon i⟩
    · obtain ⟨-, hbutton⟩ := Option.ite_none_right_eq_some.mp (Option.mem_toList.mp hprev)
      obtain rfl := Option.some.inj hbutton
      exact ⟨_, parsed_pageData hcolon _⟩
  · obtain ⟨-, hbutton⟩ := Option.ite_none_right_eq_some.mp (Option.mem_toList.mp hnext)
    obtain rfl := Option.some.inj hbutton
    exact ⟨_, parsed_pageData hcolon _⟩

theorem opens (h : Inv w) (now : Time) (chatId : ChatId) (user : UserId) (modelIds : ModelIds) :
    ∃ state,
      (ModelPicker.step atoi w (.start now chatId user modelIds)).store.pickers chatId =
          some state ∧
        (ModelPicker.step atoi w (.start now chatId user modelIds)).rendered =
          (chatId, ⟨modelIds, 0, state.generation⟩) :: w.rendered ∧
        ∀ c p, (c, p) ∈ w.rendered → p.generation ≠ state.generation := by
  obtain ⟨models, h⟩ := h
  refine ⟨_, Function.update_self .., rfl, fun c p hmem heq => ?_⟩
  obtain ⟨k, hk, hgeneration, -⟩ := (h.rendered c p hmem).1
  exact Nat.ne_of_lt hk (Hexadecimal.digits_injective (hgeneration.symm.trans heq))

theorem covered (h : Inv w) (hmem : (chatId, p) ∈ w.rendered) (hpage : p.page = 0)
    {pages : List Page} {q : Page} (hwalk : Walk atoi chatId w p pages q) :
    pages.flatMap Page.indices = List.range q.stop ∧
      (q.nextButton = none ↔ pages.flatMap Page.indices = List.range p.ids.items.length) := by
  have hwithin : p.Within := by
    rw [Page.Within, hpage, Nat.zero_mul]
    exact Nat.zero_le _
  have hstart : p.start = 0 := by rw [start_of_within hwithin, hpage, Nat.zero_mul]
  obtain ⟨hindices, hids, -⟩ := indices_of_walk h hmem hwithin hwalk
  rw [hstart, Nat.sub_zero, ← List.range_eq_range'] at hindices
  refine ⟨hindices, ?_⟩
  have hle : q.stop ≤ q.ids.items.length := Nat.min_le_right ..
  rw [hindices, ← hids, Page.nextButton, ite_eq_right_iff]
  refine ⟨fun hnone => ?_, fun heq hlt => ?_⟩
  · rw [Nat.le_antisymm hle (Nat.le_of_not_lt fun hlt => nomatch hnone hlt)]
  · have hlength := congrArg List.length heq
    rw [List.length_range, List.length_range] at hlength
    exact absurd hlength (Nat.ne_of_lt hlt)

theorem back (h : Inv w) (hmem : (chatId, p) ∈ w.rendered) {b : Button} {press : Press}
    (hb : p.prevButton = some b) (hpress : press ∈ w.pending)
    (hsame : press.generation = p.generation) (hdata : press.query.data = b.callbackData) :
    (act atoi w.store press).2.filterMap pageOf =
      [(press.msg.chatId, ⟨p.ids, p.page - 1, p.generation⟩)] := by
  obtain ⟨-, -, hsmall⟩ := agree h hmem hpress hsame
  obtain ⟨-, hbutton⟩ := Option.ite_none_right_eq_some.mp hb
  obtain rfl := Option.some.inj hbutton
  rw [press_page atoi h hmem hpress hsame (Nat.lt_of_le_of_lt (Nat.sub_le ..) hsmall) hdata]
  rfl

theorem accepts (w : World) (now again : Time) (query : CallbackQuery)
    (h : ¬ ∃ press, Accepted w.store now query press) :
    (ModelPicker.step atoi w (.press now again query)).pending = w.pending ∧
      (ModelPicker.step atoi w (.press now again query)).rendered = w.rendered := by
  have hchecked := checked now again query w.store
  simp only [ModelPicker.step]
  generalize check now again query w.store = r at hchecked ⊢
  cases hchecked with
  | answered | expired => exact ⟨rfl, rfl⟩
  | passed haccepted => exact absurd ⟨_, haccepted⟩ h

theorem changes (w : World) (e : Event)
    (h : (ModelPicker.step atoi w e).store.selectedModel ≠ w.store.selectedModel) :
    (∃ chatId model, e = .setModel chatId model) ∨
      ∃ i press, e = .resume i ∧ w.pending[i]? = some press := by
  cases e with
  | start now chatId user modelIds => exact absurd rfl h
  | press now again query =>
    refine absurd ?_ h
    rw [← selectedModel_of_check now again query w.store]
    simp only [ModelPicker.step]
    generalize check now again query w.store = r
    obtain ⟨store, _ | _⟩ := r <;> rfl
  | resume i =>
    cases hpress : w.pending[i]? with
    | none =>
      simp only [ModelPicker.step, hpress, ne_eq, not_true_eq_false] at h
    | some press => exact .inr ⟨i, press, rfl, hpress⟩
  | setModel chatId model => exact .inl ⟨chatId, model, rfl⟩

theorem Inv.correct (h : Inv w) : Correct atoi w where
  opens := opens h
  shown := flatten_buildModelPage
  named _ _ _ hmem hb := named h hmem hb
  covered _ _ _ _ hmem hpage hwalk := covered h hmem hpage hwalk
  ends _ p _ hmem hpage hlive hsame := by
    refine exists_walk h hmem ?_ hlive hsame
    rw [Page.Within, hpage, Nat.zero_mul]
    exact Nat.zero_le _
  back _ p hmem := by
    refine ⟨?_, fun b press hb hpress hsame hdata => back h hmem hb hpress hsame hdata⟩
    rw [Page.prevButton, Option.isSome_ite]
  selects _ _ _ _ hmem hi hpress hsame hdata := press_selection h hmem hpress hsame hi hdata
  accepts now again query := by
    refine ⟨fun press haccepted => ?_, accepts w now again query⟩
    simp only [ModelPicker.step, check_of_accepted again haccepted]
  changes := changes w

end Correctness

-- Where a press that is on its way was accepted.
theorem accepted_of_pending (events : List Event) {press : Press}
    (h : press ∈ (ModelPicker.run atoi World.initial events).pending) :
    ∃ before now again query after, events = before ++ .press now again query :: after ∧
      Accepted (ModelPicker.run atoi World.initial before).store now query press := by
  induction events using List.reverseRecOn with
  | nil => cases h
  | append_singleton events e ih =>
    have hearlier (hmem : press ∈ (ModelPicker.run atoi World.initial events).pending) :
        ∃ before now again query after,
          events ++ [e] = before ++ .press now again query :: after ∧
          Accepted (ModelPicker.run atoi World.initial before).store now query press := by
      obtain ⟨before, now, again, query, after, rfl, haccepted⟩ := ih hmem
      exact ⟨before, now, again, query, after ++ [e], by simp, haccepted⟩
    have hrun : ModelPicker.run atoi World.initial (events ++ [e]) =
        ModelPicker.step atoi (ModelPicker.run atoi World.initial events) e := by
      simp [ModelPicker.run]
    rw [hrun] at h
    generalize hw : ModelPicker.run atoi World.initial events = w at h hearlier
    cases e with
    | start now chatId user modelIds => exact hearlier h
    | press now again query =>
      have hchecked := checked now again query w.store
      simp only [ModelPicker.step] at h
      generalize check now again query w.store = r at hchecked h
      cases hchecked with
      | answered | expired => exact hearlier h
      | passed haccepted =>
        obtain rfl | hold := List.mem_cons.mp h
        · exact ⟨events, now, again, query, [], rfl, hw ▸ haccepted⟩
        · exact hearlier hold
    | resume i =>
      simp only [ModelPicker.step] at h
      split at h
      · exact hearlier h
      · exact hearlier (List.mem_of_mem_eraseIdx h)
    | setModel chatId model => exact hearlier h

-- A picker shows and selects what it was opened with, and only for who has opened it, in time.
theorem picker_correct (atoi : SimpleAtoi) (events : List Event) :
    Correct atoi (run atoi World.initial events) ∧
      ∀ press ∈ (run atoi World.initial events).pending,
        ∃ before now again query after, events = before ++ .press now again query :: after ∧
          Accepted (run atoi World.initial before).store now query press := by
  have hinitial : Inv World.initial := ⟨fun _ => ⟨[], by decide⟩, .initial _⟩
  exact ⟨(hinitial.run events).correct, fun press => accepted_of_pending events⟩

end Runs

-- A reader that takes digits only.
def digitsOnly : SimpleAtoi where
  read text :=
    let value := text.foldl (fun (m : ℤ) d => 10 * m + (d.toNat - 48)) 0
    if text ≠ [] ∧ (∀ b ∈ text, Decimal.isDigit b = true) ∧ value < 2 ^ 64 then some value.toNat
    else none
  read_digits n hn := by
    simp only [Decimal.value_digits]
    rw [if_pos ⟨Decimal.digits_ne_nil n, Decimal.isDigit_digits n, by omega⟩, Int.toNat_natCast]
  read_lt text n h := by
    obtain ⟨⟨-, -, hlt⟩, hn⟩ := Option.ite_none_right_eq_some.mp h
    have hn := Option.some.inj hn
    omega

def nineModels : ModelIds := ⟨List.replicate 8 (ascii "a") ++ [ascii "b"], by decide⟩

def pressOf (data : Bytes) : Event := .press 1 1 ⟨ascii "q", some 2, some ⟨7, none⟩, data⟩

-- The second page is gone to, and its only model is selected there.
set_option maxRecDepth 4096 in
theorem picker_correct_secondPage :
    ∃ press model, nineModels.items[8]? = some model ∧
      (act digitsOnly (run digitsOnly World.initial [.start 0 7 2 nineModels,
          pressOf (ascii "ask_model:1:p:1"), .resume 0,
          pressOf (ascii "ask_model:1:s:8")]).store press).1.selectedModel =
        Function.update (fun _ => none) 7 (some model) := by
  refine ⟨⟨⟨ascii "q", some 2, some ⟨7, none⟩, ascii "ask_model:1:s:8"⟩, ⟨7, none⟩,
    ⟨nineModels, 1, 2, ascii "1", lifetime⟩, ascii "1", ascii "s:8"⟩, ?_⟩
  exact (picker_correct digitsOnly [.start 0 7 2 nineModels, pressOf (ascii "ask_model:1:p:1"),
    .resume 0, pressOf (ascii "ask_model:1:s:8")]).1.selects 7 ⟨nineModels, 1, ascii "1"⟩ 8 _
    (by decide +kernel) (by decide) (by decide +kernel) rfl (by decide)

end Glider.Llm.ModelPicker
