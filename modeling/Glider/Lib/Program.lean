import Mathlib.Logic.Basic

namespace Glider.Lib

-- A program that calls its surroundings and goes on with their answers. `throw` returns early.
inductive Program (Op : Type) (Ans : Op → Type) (ε α : Type) where
  | pure (a : α)
  | throw (e : ε)
  | call (op : Op) (next : Ans op → Program Op Ans ε α)

namespace Program

variable {Op : Type} {Ans : Op → Type} {ε α β μ : Type}

def bind (f : α → Program Op Ans ε β) : Program Op Ans ε α → Program Op Ans ε β
  | .pure a => f a
  | .throw e => .throw e
  | .call op next => .call op fun answer => bind f (next answer)

instance : Monad (Program Op Ans ε) where
  pure := .pure
  bind p f := p.bind f

def perform (op : Op) : Program Op Ans ε (Ans op) := .call op .pure

-- What is thrown is caught, and the program goes on with it.
def handle {ε' : Type} (f : ε → Program Op Ans ε' α) : Program Op Ans ε α → Program Op Ans ε' α
  | .pure a => .pure a
  | .throw e => f e
  | .call op next => .call op fun answer => handle f (next answer)

-- The operation that a program waits for.
def asks : Program Op Ans ε α → Option Op
  | .call op _ => some op
  | _ => none

-- A monitor follows the calls of a program: which it may make, and where it is after an answer.
structure Monitor (Op : Type) (Ans : Op → Type) (μ : Type) where
  allows : μ → Op → Prop
  next : μ → (op : Op) → Ans op → μ

-- Whatever the answers, the monitor allows every call, and the end meets `post`.
def Meets (monitor : Monitor Op Ans μ) (post : μ → Except ε α → Prop) :
    Program Op Ans ε α → μ → Prop
  | .pure a, m => post m (.ok a)
  | .throw e, m => post m (.error e)
  | .call op next, m =>
    monitor.allows m op ∧ ∀ answer, Meets monitor post (next answer) (monitor.next m op answer)

variable {monitor : Monitor Op Ans μ} {post post' : μ → Except ε α → Prop} {m : μ}

theorem Meets.mono {p : Program Op Ans ε α} (himp : ∀ m r, post m r → post' m r)
    (h : p.Meets monitor post m) : p.Meets monitor post' m := by
  induction p generalizing m with
  | pure a | throw e => exact himp m _ h
  | call op next ih => exact ⟨h.1, fun answer => ih answer (h.2 answer)⟩

-- One monitor stands for another one if it allows at least as much and goes along with it.
theorem Meets.map {μ' : Type} {monitor' : Monitor Op Ans μ'} {post' : μ' → Except ε α → Prop}
    {p : Program Op Ans ε α} (f : μ → μ')
    (hallows : ∀ m op, monitor.allows m op → monitor'.allows (f m) op)
    (hnext : ∀ m op answer, monitor.allows m op →
      monitor'.next (f m) op answer = f (monitor.next m op answer))
    (hpost : ∀ m r, post m r → post' (f m) r) (h : p.Meets monitor post m) :
    p.Meets monitor' post' (f m) := by
  induction p generalizing m with
  | pure a | throw e => exact hpost m _ h
  | call op next ih =>
    refine ⟨hallows m op h.1, fun answer => ?_⟩
    rw [hnext m op answer h.1]
    exact ih answer (h.2 answer)

-- An error of the first part is the end of the whole.
theorem meets_bind {post : μ → Except ε β → Prop} {p : Program Op Ans ε α}
    {f : α → Program Op Ans ε β} :
    (p >>= f).Meets monitor post m ↔
      p.Meets monitor (fun m r => match r with
        | .ok a => (f a).Meets monitor post m
        | .error e => post m (.error e)) m := by
  induction p generalizing m with
  | pure a | throw e => exact Iff.rfl
  | call op next ih => exact and_congr Iff.rfl (forall_congr' fun answer => ih answer)

theorem meets_handle {ε' : Type} {post : μ → Except ε' α → Prop} {p : Program Op Ans ε α}
    {f : ε → Program Op Ans ε' α} :
    (p.handle f).Meets monitor post m ↔
      p.Meets monitor (fun m r => match r with
        | .ok a => post m (.ok a)
        | .error e => (f e).Meets monitor post m) m := by
  induction p generalizing m with
  | pure a | throw e => exact Iff.rfl
  | call op next ih => exact and_congr Iff.rfl (forall_congr' fun answer => ih answer)

-- Under the monitor, a program that throws nothing leads from one place to one of which `post`
-- holds.
def Leads (monitor : Monitor Op Ans μ) (p : Program Op Ans Empty α) (m : μ) (post : μ → α → Prop) :
    Prop :=
  p.Meets monitor (fun m r => match r with
    | .ok a => post m a
    | .error e => e.elim) m

namespace Leads

theorem bind {p : Program Op Ans Empty α} {rest : α → Program Op Ans Empty β}
    {middle : μ → α → Prop} {post : μ → β → Prop} (hp : p.Leads monitor m middle)
    (hrest : ∀ m' a, middle m' a → (rest a).Leads monitor m' post) :
    (p >>= rest).Leads monitor m post := by
  refine meets_bind.mpr (Meets.mono ?_ hp)
  rintro m' (e | a) h
  · exact e.elim
  · exact hrest m' a h

theorem mono {p : Program Op Ans Empty α} {post post' : μ → α → Prop}
    (h : p.Leads monitor m post) (himp : ∀ m' a, post m' a → post' m' a) :
    p.Leads monitor m post' := by
  refine Meets.mono ?_ h
  rintro m' (e | a) hpost
  · exact e.elim
  · exact himp m' a hpost

theorem meets {p : Program Op Ans Empty α} {post : μ → α → Prop}
    {post' : μ → Except Empty α → Prop} (h : p.Leads monitor m post)
    (himp : ∀ m' a, post m' a → post' m' (.ok a)) : p.Meets monitor post' m := by
  refine Meets.mono ?_ h
  rintro m' (e | a) hpost
  · exact e.elim
  · exact himp m' a hpost

end Leads

-- A program that throws nothing, in surroundings that answer as `rely` says: the monitor allows
-- every call, and `post` holds of the end.
def Relies (rely : μ → (op : Op) → Ans op → Prop) (monitor : Monitor Op Ans μ)
    (post : μ → α → Prop) : Program Op Ans Empty α → μ → Prop
  | .pure a, m => post m a
  | .throw e, _ => e.elim
  | .call op next, m =>
    monitor.allows m op ∧
      ∀ answer, rely m op answer →
        Relies rely monitor post (next answer) (monitor.next m op answer)

namespace Relies

variable {rely : μ → (op : Op) → Ans op → Prop}

theorem bind {p : Program Op Ans Empty α} {rest : α → Program Op Ans Empty β}
    {middle : μ → α → Prop} {post : μ → β → Prop} (hp : p.Relies rely monitor middle m)
    (hrest : ∀ m' a, middle m' a → (rest a).Relies rely monitor post m') :
    (p >>= rest).Relies rely monitor post m := by
  induction p generalizing m with
  | pure a => exact hrest m a hp
  | throw e => exact e.elim
  | call op next ih => exact ⟨hp.1, fun answer hanswer => ih answer (hp.2 answer hanswer)⟩

theorem perform {op : Op} {rest : Ans op → Program Op Ans Empty α} {post : μ → α → Prop}
    (hallows : monitor.allows m op)
    (hrest : ∀ answer, rely m op answer →
      (rest answer).Relies rely monitor post (monitor.next m op answer)) :
    (Program.perform op >>= rest).Relies rely monitor post m :=
  ⟨hallows, hrest⟩

theorem mono {p : Program Op Ans Empty α} {post post' : μ → α → Prop}
    (h : p.Relies rely monitor post m) (himp : ∀ m' a, post m' a → post' m' a) :
    p.Relies rely monitor post' m := by
  induction p generalizing m with
  | pure a => exact himp m a h
  | throw e => exact e.elim
  | call op next ih => exact ⟨h.1, fun answer hanswer => ih answer (h.2 answer hanswer)⟩

end Relies

-- Run by surroundings with a state and a choice at every call, the program ends with `post`.
def Ensures {σ ι : Type} (act : ι → σ → (op : Op) → Ans op × σ)
    (post : σ → Except ε α → Prop) : Program Op Ans ε α → σ → Prop
  | .pure a, s => post s (.ok a)
  | .throw e, s => post s (.error e)
  | .call op next, s => ∀ i, Ensures act post (next (act i s op).1) (act i s op).2

section Ensures

variable {σ ι : Type} {act : ι → σ → (op : Op) → Ans op × σ} {s : σ}

theorem ensures_pure {post : σ → Except ε α → Prop} (a : α) :
    (Pure.pure a : Program Op Ans ε α).Ensures act post s ↔ post s (.ok a) := Iff.rfl

theorem ensures_perform_bind {post : σ → Except ε α → Prop} (op : Op)
    {f : Ans op → Program Op Ans ε α} :
    (perform op >>= f).Ensures act post s ↔
      ∀ i, (f (act i s op).1).Ensures act post (act i s op).2 := Iff.rfl

end Ensures

-- Run by surroundings that answer every operation in one way.
def eval (answer : (op : Op) → Ans op) : Program Op Ans ε α → Except ε α
  | .pure a => .ok a
  | .throw e => .error e
  | .call op next => eval answer (next (answer op))

theorem eval_bind (answer : (op : Op) → Ans op) (p : Program Op Ans ε α)
    (f : α → Program Op Ans ε β) :
    (p >>= f).eval answer = p.eval answer >>= fun a => (f a).eval answer := by
  induction p with
  | pure a | throw e => rfl
  | call op next ih => exact ih (answer op)

-- A part of a program in the course of which the monitor stays where it is.
def Keeps (monitor : Monitor Op Ans μ) (m : μ) (p : Program Op Ans ε α) : Prop :=
  p.Meets monitor (fun m' _ => m' = m) m

namespace Keeps

variable {p q : Program Op Ans ε α} {f : α → Program Op Ans ε β}

theorem meets_bind (hp : p.Keeps monitor m) {post : μ → Except ε β → Prop}
    (hf : ∀ a, (f a).Meets monitor post m) (herror : ∀ e, post m (.error e)) :
    (p >>= f).Meets monitor post m := by
  rw [Program.meets_bind]
  refine hp.mono ?_
  rintro m' (e | a) rfl
  · exact herror e
  · exact hf a

theorem bind (hp : p.Keeps monitor m) (hf : ∀ a, (f a).Keeps monitor m) :
    (p >>= f).Keeps monitor m :=
  hp.meets_bind hf fun _ => rfl

theorem pure (a : α) : (Pure.pure a : Program Op Ans ε α).Keeps monitor m := rfl

theorem throw (e : ε) : (.throw e : Program Op Ans ε α).Keeps monitor m := rfl

theorem ite {c : Prop} [Decidable c] (hp : p.Keeps monitor m) (hq : q.Keeps monitor m) :
    (if c then p else q).Keeps monitor m := by
  split
  · exact hp
  · exact hq

theorem forM {γ : Type} {f : γ → Program Op Ans ε PUnit} {l : List γ}
    (hf : ∀ c ∈ l, (f c).Keeps monitor m) : (l.forM f).Keeps monitor m := by
  induction l with
  | nil => exact pure ()
  | cons c l ih =>
    exact bind (hf c List.mem_cons_self) fun _ => ih fun d hd => hf d (List.mem_cons_of_mem c hd)

end Keeps

end Program

end Glider.Lib
