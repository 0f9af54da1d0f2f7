import JsxPreview.Proofs.Sandbox.Gives

/-! # Chunks and the reads that get them

A stream is read, filled and closed in any order.  What has come of it is an `Exchange`: the chunks that
were put in before the stream was closed, and how many reads there were.  The channel of the stream
follows from it (`Channel.Serves`): it holds the chunks that no read has had yet, or the reads that no
chunk was there for, which end with the close.  Each call keeps this, and gives to every read what the
exchange then has for it and had not before (`gives_perform`).  So the read at place `k` gets the chunk at
place `k`, and the end of the stream if there is no such chunk (`reads_answered`). -/
set_option autoImplicit false
namespace JsxPreview.Sandbox

open JsxPreview.Element (Stop)
open JsxPreview.Script
open Sandboxed

/-! ## Calls of a stream -/

inductive StreamCall where
  | read
  | enqueue (chunk : Value)
  | close

inductive ReadAnswer where
  | chunk (c : Value)
  | done

namespace StreamCall

def isRead : StreamCall → Bool
  | read => true
  | _ => false

def isClose : StreamCall → Bool
  | close => true
  | _ => false

/-- The chunks that are put in before the first close. -/
def putIn : List StreamCall → List Value
  | [] | close :: _ => []
  | enqueue c :: rest => c :: putIn rest
  | read :: rest => putIn rest

end StreamCall

/-- What a step tells the read that waited for it. -/
def Streams.PipeStep.answer? : Streams.PipeStep → Option (Nat × ReadAnswer)
  | .carry _ reader c => some (reader, .chunk c)
  | .finish reader => some (reader, .done)
  | .read _ _ => none

/-- Makes a call, of which a read goes by the number `n`, and gives the answers of reads that come of it.
What is put into a closed stream is refused, and the next call follows. -/
def StreamCall.perform (id n : Nat) : StreamCall → Sandboxed (List (Nat × ReadAnswer))
  | read => do
      match ← Streams.readFor id n with
      | .chunk c => return [(n, .chunk c)]
      | .done => return [(n, .done)]
      | .failed _ | .waits => return []
  | enqueue c => do
      let steps ← tryCatch (Streams.enqueue id c) fun
        | .thrown _ => return []
        | stop => throw stop
      return steps.filterMap Streams.PipeStep.answer?
  | close => do return (← Streams.close id).filterMap Streams.PipeStep.answer?

/-- Makes calls one after the other; reads are numbered in their order, from `n` on. -/
def performAll (id : Nat) : Nat → List StreamCall → Sandboxed (List (Nat × ReadAnswer))
  | _, [] => return []
  | n, c :: rest => do
      let here ← c.perform id n
      return here ++ (← performAll id (if c.isRead then n + 1 else n) rest)

/-- The answers that one read gets. -/
def answersOf (k : Nat) (answers : List (Nat × ReadAnswer)) : List ReadAnswer :=
  (answers.filter (·.1 == k)).map (·.2)

theorem answersOf_append (k : Nat) (first second : List (Nat × ReadAnswer)) :
    answersOf k (first ++ second) = answersOf k first ++ answersOf k second := by
  rw [answersOf, List.filter_append, List.map_append]
  rfl

theorem answersOf_single (k n : Nat) (answer : ReadAnswer) :
    answersOf k [(n, answer)] = if k = n then [answer] else [] := by
  by_cases same : k = n
  · simp [answersOf, same]
  · simp [answersOf, same, Ne.symm same]

theorem answersOf_range (k first n : Nat) :
    answersOf k ((List.range' first n).map (·, ReadAnswer.done)) =
      if first ≤ k ∧ k < first + n then [.done] else [] := by
  induction n generalizing first with
  | zero =>
      rw [if_neg (by omega)]
      rfl
  | succ n ih =>
      have split : (List.range' first (n + 1)).map (·, ReadAnswer.done) =
          [(first, .done)] ++ (List.range' (first + 1) n).map (·, ReadAnswer.done) := rfl
      rw [split, answersOf_append, answersOf_single, ih]
      by_cases same : k = first
      · rw [if_pos same, if_neg (by omega), if_pos (by omega), List.append_nil]
      · rw [if_neg same, List.nil_append]
        have bounds : first + 1 ≤ k ∧ k < first + 1 + n ↔ first ≤ k ∧ k < first + (n + 1) := by omega
        simp only [bounds]

/-! ## What has come of the calls -/

structure Exchange where
  /-- The chunks that were put in before the close. -/
  chunks : List Value := []
  reads : Nat := 0
  closed : Bool := false

namespace Exchange

def after (e : Exchange) : StreamCall → Exchange
  | .read => { e with reads := e.reads + 1 }
  | .enqueue c => if e.closed then e else { e with chunks := e.chunks ++ [c] }
  | .close => { e with closed := true }

/-- What a read has been answered: a chunk, the end, or nothing yet. -/
def answers (e : Exchange) (k : Nat) : List ReadAnswer :=
  if k < e.reads then
    match e.chunks[k]? with
    | some c => [.chunk c]
    | none => if e.closed then [.done] else []
  else []

theorem reads_after (e : Exchange) (call : StreamCall) :
    (e.after call).reads = if call.isRead then e.reads + 1 else e.reads := by
  cases call with
  | read => rfl
  | enqueue c =>
      rw [after]
      split <;> rfl
  | close => rfl

theorem after_all (calls : List StreamCall) (e : Exchange) : calls.foldl after e =
    ⟨if e.closed then e.chunks else e.chunks ++ StreamCall.putIn calls,
      e.reads + calls.countP StreamCall.isRead, e.closed || calls.any StreamCall.isClose⟩ := by
  induction calls generalizing e with
  | nil => cases e; simp [StreamCall.putIn]
  | cons call calls ih =>
      rw [List.foldl_cons, ih, List.countP_cons, List.any_cons]
      obtain ⟨chunks, reads, closed⟩ := e
      cases call <;> cases closed <;>
        simp [after, StreamCall.putIn, StreamCall.isRead, StreamCall.isClose, Nat.add_right_comm,
          ← Nat.add_assoc]

end Exchange

/-! ## The channel of a stream -/

namespace Channel

section

variable {Chunk Failure Reader : Type} {ch : Channel Chunk Failure Reader}

theorem read_held {c : Chunk} {rest : List Chunk} (held : ch.queue = c :: rest) (reader : Reader) :
    ch.read reader = (.chunk c, { ch with queue := rest }) := by
  rw [read, held]

theorem read_ended (nothing : ch.queue = []) (closed : ch.closed = true) (sound : ch.failure = none)
    (reader : Reader) : ch.read reader = (.done, ch) := by
  simp only [read, nothing, sound, closed, if_true]

theorem read_waits (nothing : ch.queue = []) (isOpen : ch.closed = false) (sound : ch.failure = none)
    (reader : Reader) :
    ch.read reader = (.waits, { ch with waiting := ch.waiting ++ [reader] }) := by
  simp only [read, nothing, sound, isOpen, Bool.false_eq_true, if_false]

theorem put?_closed (closed : ch.closed = true) (c : Chunk) : ch.put? c = none := by
  rw [put?, if_pos closed]

theorem put?_waited {reader : Reader} {rest : List Reader} (isOpen : ch.closed = false)
    (waited : ch.waiting = reader :: rest) (c : Chunk) :
    ch.put? c = some (some reader, { ch with waiting := rest }) := by
  rw [put?, isOpen, waited]
  rfl

theorem put?_free (isOpen : ch.closed = false) (free : ch.waiting = []) (c : Chunk) :
    ch.put? c = some (none, { ch with queue := ch.queue ++ [c] }) := by
  rw [put?, isOpen, free]
  rfl

end

/-- A channel after an exchange: it holds the chunks that are left over, and the reads that are. -/
structure Serves (ch : Channel Value Value Nat) (e : Exchange) : Prop where
  queue : ch.queue = e.chunks.drop e.reads
  waiting : ch.waiting =
    if e.closed then [] else List.range' e.chunks.length (e.reads - e.chunks.length)
  closed : ch.closed = e.closed
  failure : ch.failure = none

variable {ch : Channel Value Value Nat} {e : Exchange}

theorem Serves.start : (({} : Channel Value Value Nat)).Serves {} := ⟨rfl, rfl, rfl, rfl⟩

/-- Never does a channel hold chunks and reads. -/
theorem Serves.alone (serves : ch.Serves e) : ch.queue = [] ∨ ch.waiting = [] := by
  rcases Nat.le_total e.chunks.length e.reads with few | many
  · exact .inl (by rw [serves.queue, List.drop_eq_nil_of_le few])
  · refine .inr ?_
    rw [serves.waiting, Nat.sub_eq_zero_of_le many]
    split <;> rfl

theorem Serves.read (serves : ch.Serves e) : ∃ ch', ch.read e.reads =
    ((match e.chunks[e.reads]? with
      | some c => .chunk c
      | none => if e.closed then .done else .waits), ch') ∧ ch'.Serves (e.after .read) := by
  rcases Nat.lt_or_ge e.reads e.chunks.length with more | nothing
  · have held := serves.queue.trans (List.drop_eq_getElem_cons more)
    rw [List.getElem?_eq_getElem more, read_held held]
    have none : e.reads + 1 - e.chunks.length = e.reads - e.chunks.length := by omega
    exact ⟨_, rfl, rfl, by rw [serves.waiting, Exchange.after, none], serves.closed, serves.failure⟩
  · have empty := serves.queue.trans (List.drop_eq_nil_of_le nothing)
    have still : ch.queue = e.chunks.drop (e.reads + 1) :=
      empty.trans (List.drop_eq_nil_of_le (by omega)).symm
    rw [List.getElem?_eq_none nothing]
    cases isClosed : e.closed with
    | true =>
        rw [read_ended empty (serves.closed.trans isClosed) serves.failure]
        refine ⟨_, rfl, still, ?_, serves.closed, serves.failure⟩
        rw [serves.waiting, Exchange.after, isClosed]
        rfl
    | false =>
        rw [read_waits empty (serves.closed.trans isClosed) serves.failure]
        refine ⟨_, rfl, still, ?_, serves.closed, serves.failure⟩
        -- the new read waits behind all others
        have more : e.reads + 1 - e.chunks.length = e.reads - e.chunks.length + 1 := by omega
        have last : e.chunks.length + (e.reads - e.chunks.length) = e.reads := by omega
        simp only [serves.waiting, Exchange.after, isClosed, Bool.false_eq_true, if_false, more,
          List.range'_concat, Nat.one_mul, last]

/-- What is put in goes to the read that waits longest, if any does. -/
theorem Serves.put (serves : ch.Serves e) (isOpen : e.closed = false) (c : Value) :
    ∃ ch', ch.put? c =
        some (if e.chunks.length < e.reads then some e.chunks.length else none, ch') ∧
      ch'.Serves (e.after (.enqueue c)) := by
  have here := serves.closed.trans isOpen
  have after : e.after (.enqueue c) = { e with chunks := e.chunks ++ [c] } := by
    rw [Exchange.after, isOpen]
    rfl
  have waiting : ch.waiting = List.range' e.chunks.length (e.reads - e.chunks.length) := by
    rw [serves.waiting, isOpen]
    rfl
  rw [after]
  rcases Nat.lt_or_ge e.chunks.length e.reads with waited | free
  · have split : e.reads - e.chunks.length = e.reads - (e.chunks.length + 1) + 1 := by omega
    rw [split, List.range'_succ] at waiting
    rw [put?_waited here waiting, if_pos waited]
    refine ⟨_, rfl, ?_, ?_, serves.closed, serves.failure⟩
    · rw [serves.queue, List.drop_eq_nil_of_le (Nat.le_of_lt waited),
        List.drop_eq_nil_of_le (by rw [List.length_append, List.length_singleton]; exact waited)]
    · simp only [isOpen, Bool.false_eq_true, if_false, List.length_append, List.length_singleton]
  · rw [Nat.sub_eq_zero_of_le free] at waiting
    rw [put?_free here waiting, if_neg (Nat.not_lt.mpr free)]
    refine ⟨_, rfl, ?_, ?_, serves.closed, serves.failure⟩
    · rw [serves.queue, List.drop_append_of_le_length free]
    · have none : e.reads - (e.chunks ++ [c]).length = 0 :=
        Nat.sub_eq_zero_of_le (by rw [List.length_append]; omega)
      simp only [waiting, none, isOpen, Bool.false_eq_true, if_false, List.range'_zero]

theorem Serves.close (serves : ch.Serves e) : ch.close.2.Serves (e.after .close) :=
  ⟨serves.queue, rfl, rfl, serves.failure⟩

end Channel

/-! ## Calls in a session -/

/-- A stream of the session that an exchange was made with. -/
def Serving (s : Session) (id : Nat) (e : Exchange) : Prop :=
  ∃ stream, s.object id = .stream stream ∧ stream.channel.Serves e

section

variable {s : Session} {id : Nat} {e : Exchange} {stream : Stream} {ch : Channel Value Value Nat}

theorem Serving.replaced (is : s.object id = .stream stream) (serves : ch.Serves e) :
    Serving (s.replaced id (.stream { stream with channel := ch })) id e := by
  refine ⟨{ stream with channel := ch }, ?_, serves⟩
  rw [Session.object_replaced, if_pos ⟨rfl, Session.lt_of_object (by rw [is]; exact nofun)⟩]

theorem gives_streamOf (is : s.object id = .stream stream) :
    Gives (Streams.streamOf id) s stream s := by
  refine (Gives.objectOf id s).bind ?_
  rw [is]
  exact .pure _ s

theorem gives_read (serving : Serving s id e) : ∃ here s',
    Gives (StreamCall.read.perform id e.reads) s here s' ∧ Serving s' id (e.after .read) ∧
      ∀ k, e.answers k ++ answersOf k here = (e.after .read).answers k := by
  obtain ⟨stream, is, serves⟩ := serving
  obtain ⟨ch, outcome, kept⟩ := serves.read
  have given : Gives (Streams.readFor id e.reads) s (stream.channel.read e.reads).1
      (s.replaced id (.stream { stream with channel := (stream.channel.read e.reads).2 })) :=
    (gives_streamOf is).bind ((Gives.replace id _ s).bind (.pure _ _))
  rw [outcome] at given
  -- only the new read can be answered
  have all {here : List (Nat × ReadAnswer)} {answer : List ReadAnswer}
      (only : ∀ k, answersOf k here = if k = e.reads then answer else [])
      (new : (e.after .read).answers e.reads = answer) (k : Nat) :
      e.answers k ++ answersOf k here = (e.after .read).answers k := by
    rw [only k]
    by_cases same : k = e.reads
    · rw [if_pos same, same, new, Exchange.answers, if_neg (Nat.lt_irrefl _), List.nil_append]
    · have bound : k < e.reads + 1 ↔ k < e.reads := by omega
      simp only [if_neg same, List.append_nil, Exchange.answers, Exchange.after, bound]
      rfl
  have new : (e.after .read).answers e.reads = match e.chunks[e.reads]? with
      | some c => [.chunk c]
      | none => if e.closed then [.done] else [] := if_pos (Nat.lt_succ_self _)
  cases found : e.chunks[e.reads]? with
  | some c =>
      rw [found] at given new
      exact ⟨_, _, given.bind (.pure _ _), .replaced is kept,
        all (fun k => answersOf_single k _ _) new⟩
  | none =>
      rw [found] at given new
      cases isClosed : e.closed with
      | true =>
          rw [isClosed] at given new
          exact ⟨_, _, given.bind (.pure _ _), .replaced is kept,
            all (fun k => answersOf_single k _ _) new⟩
      | false =>
          rw [isClosed] at given new
          exact ⟨_, _, given.bind (.pure _ _), .replaced is kept,
            all (fun k => (ite_self _).symm) new⟩

/-- What is put into a closed stream is refused, and nothing changes. -/
theorem enqueue_closed (serving : Serving s id e) (isClosed : e.closed = true) (c : Value) :
    (Streams.enqueue id c).run.run s =
      (.error (.thrown (Value.typeError "Cannot enqueue a chunk into a closed stream")), s) := by
  obtain ⟨stream, is, serves⟩ := serving
  have refused := stream.channel.put?_closed (serves.closed.trans isClosed) c
  rw [Streams.enqueue, (gives_streamOf is).run_bind, refused]
  rfl

/-- A chunk goes to the first read that no chunk was there for. -/
theorem answers_enqueue (isOpen : e.closed = false) (c : Value) (k : Nat) :
    e.answers k ++ (if k = e.chunks.length ∧ k < e.reads then [.chunk c] else []) =
      (e.after (.enqueue c)).answers k := by
  have after : e.after (.enqueue c) = { e with chunks := e.chunks ++ [c] } := by
    rw [Exchange.after, isOpen]
    rfl
  rw [after]
  simp only [Exchange.answers, isOpen, Bool.false_eq_true, if_false]
  by_cases asked : k < e.reads
  · rw [if_pos asked, if_pos asked]
    rcases Nat.lt_trichotomy k e.chunks.length with less | rfl | more
    · rw [List.getElem?_append_left less, List.getElem?_eq_getElem less, if_neg (by omega),
        List.append_nil]
    · rw [List.getElem?_concat_length, List.getElem?_eq_none (Nat.le_refl _), if_pos ⟨rfl, asked⟩,
        List.nil_append]
    · have behind : (e.chunks ++ [c]).length ≤ k := by
        rw [List.length_append, List.length_singleton]
        exact more
      rw [List.getElem?_eq_none (Nat.le_of_lt more), List.getElem?_eq_none behind,
        if_neg (by omega), List.append_nil]
  · rw [if_neg asked, if_neg asked, if_neg (fun here => asked here.2), List.append_nil]

theorem gives_enqueue (serving : Serving s id e) (c : Value) : ∃ here s',
    Gives ((StreamCall.enqueue c).perform id e.reads) s here s' ∧
      Serving s' id (e.after (.enqueue c)) ∧
      ∀ k, e.answers k ++ answersOf k here = (e.after (.enqueue c)).answers k := by
  cases isClosed : e.closed with
  | true =>
      have same : e.after (.enqueue c) = e := if_pos isClosed
      refine ⟨[], s, ?_, by rwa [same], fun k => by rw [same]; exact List.append_nil _⟩
      exact (Gives.caught (enqueue_closed serving isClosed c) (.pure [] s)).bind (.pure _ s)
  | false =>
      obtain ⟨stream, is, serves⟩ := serving
      obtain ⟨ch, put, kept⟩ := serves.put isClosed c
      have given : Gives (Streams.enqueue id c) s
          ((if e.chunks.length < e.reads then some e.chunks.length else none).toList.map
            (Streams.PipeStep.carry id · c))
          (s.replaced id (.stream { stream with channel := ch })) := by
        refine (gives_streamOf is).bind ?_
        rw [put]
        exact (Gives.replace id _ s).bind (.pure _ _)
      refine ⟨_, _, (given.tryCatch _).bind (.pure _ _), .replaced is kept, fun k => ?_⟩
      rw [← answers_enqueue isClosed c k]
      by_cases waited : e.chunks.length < e.reads
      · rw [if_pos waited]
        have single : answersOf k [(e.chunks.length, .chunk c)] = _ := answersOf_single k _ _
        have bound : k = e.chunks.length ∧ k < e.reads ↔ k = e.chunks.length := by omega
        simp only [bound, ← single]
        rfl
      · rw [if_neg waited, if_neg (by omega)]
        rfl

/-- With the close all reads end that no chunk was there for. -/
theorem answers_close (e : Exchange) (k : Nat) :
    e.answers k ++ (if e.closed = false ∧ e.chunks.length ≤ k ∧ k < e.reads then [.done] else []) =
      (e.after .close).answers k := by
  simp only [Exchange.answers, Exchange.after, if_true]
  by_cases asked : k < e.reads
  · rw [if_pos asked, if_pos asked]
    rcases Nat.lt_or_ge k e.chunks.length with less | more
    · have early : ¬ (e.closed = false ∧ e.chunks.length ≤ k ∧ k < e.reads) :=
        fun late => Nat.not_le.mpr less late.2.1
      rw [List.getElem?_eq_getElem less, if_neg early, List.append_nil]
    · rw [List.getElem?_eq_none more]
      cases e.closed <;> simp [asked, more]
  · rw [if_neg asked, if_neg asked, if_neg (fun here => asked here.2.2), List.append_nil]

theorem gives_close (serving : Serving s id e) : ∃ here s',
    Gives (StreamCall.close.perform id e.reads) s here s' ∧ Serving s' id (e.after .close) ∧
      ∀ k, e.answers k ++ answersOf k here = (e.after .close).answers k := by
  obtain ⟨stream, is, serves⟩ := serving
  have given : Gives (Streams.close id) s (stream.channel.waiting.map .finish)
      (s.replaced id (.stream { stream with channel := stream.channel.close.2 })) :=
    (gives_streamOf is).bind ((Gives.replace id _ s).bind (.pure _ _))
  have ended : (stream.channel.waiting.map Streams.PipeStep.finish).filterMap
      Streams.PipeStep.answer? = stream.channel.waiting.map (·, ReadAnswer.done) := by
    rw [List.filterMap_map, ← List.filterMap_eq_map]
    rfl
  refine ⟨_, _, given.bind (.pure _ _), .replaced is serves.close, fun k => ?_⟩
  rw [← answers_close, ended, serves.waiting]
  cases isClosed : e.closed with
  | true => simp [answersOf]
  | false =>
      have bound : e.chunks.length ≤ k ∧ k < e.chunks.length + (e.reads - e.chunks.length) ↔
          false = false ∧ e.chunks.length ≤ k ∧ k < e.reads := by
        simp only [true_and]
        omega
      simp only [Bool.false_eq_true, if_false, answersOf_range, bound]

/-- Each call gives to every read what there is for it now and was not before. -/
theorem gives_perform (serving : Serving s id e) (call : StreamCall) : ∃ here s',
    Gives (call.perform id e.reads) s here s' ∧ Serving s' id (e.after call) ∧
      ∀ k, e.answers k ++ answersOf k here = (e.after call).answers k := by
  cases call with
  | read => exact gives_read serving
  | enqueue c => exact gives_enqueue serving c
  | close => exact gives_close serving

theorem gives_performAll (serving : Serving s id e) (calls : List StreamCall) : ∃ answers s',
    Gives (performAll id e.reads calls) s answers s' ∧
      Serving s' id (calls.foldl Exchange.after e) ∧
      ∀ k, e.answers k ++ answersOf k answers = (calls.foldl Exchange.after e).answers k := by
  induction calls generalizing s e with
  | nil => exact ⟨[], s, .pure [] s, serving, fun k => List.append_nil _⟩
  | cons call calls ih =>
      obtain ⟨here, s₁, given, serving, now⟩ := gives_perform serving call
      obtain ⟨later, s₂, rest, serving, all⟩ := ih serving
      rw [e.reads_after] at rest
      refine ⟨here ++ later, s₂, given.bind (rest.bind (.pure _ s₂)), serving, fun k => ?_⟩
      rw [answersOf_append, ← List.append_assoc, now k]
      exact all k

end

/-! ## All reads -/

/-- A stream that is new is read, filled and closed in any order.  Then it holds chunks or has reads that
wait, but never both.  The read at place `k` is answered once, with the chunk at place `k` if that was put
in before the close, and else, once the stream is closed, with its end.  What was put in and not read is
still there in its order.  After the close no read waits, and what is put in is refused and changes
nothing. -/
theorem reads_answered (calls : List StreamCall) {s : Session} {id : Nat} {stream : Stream}
    (is : s.object id = .stream stream) (new : stream.channel = {}) :
    ∃ answers s' stream', Gives (performAll id 0 calls) s answers s' ∧
      s'.object id = .stream stream' ∧
      (stream'.channel.queue = [] ∨ stream'.channel.waiting = []) ∧
      (∀ k, answersOf k answers =
        if k < calls.countP StreamCall.isRead then
          match (StreamCall.putIn calls)[k]? with
          | some c => [.chunk c]
          | none => if calls.any StreamCall.isClose then [.done] else []
        else []) ∧
      stream'.channel.queue = (StreamCall.putIn calls).drop (calls.countP StreamCall.isRead) ∧
      (calls.any StreamCall.isClose = true → stream'.channel.waiting = [] ∧
        ∀ c, (Streams.enqueue id c).run.run s' =
          (.error (.thrown (Value.typeError "Cannot enqueue a chunk into a closed stream")), s')) := by
  obtain ⟨answers, s', given, serving, all⟩ :=
    gives_performAll ⟨stream, is, new ▸ Channel.Serves.start⟩ calls
  rw [Exchange.after_all] at serving all
  simp only [Bool.false_eq_true, if_false, List.nil_append, Nat.zero_add, Bool.false_or] at serving all
  obtain ⟨stream', is', serves⟩ := serving
  refine ⟨answers, s', stream', given, is', serves.alone, all, serves.queue, fun closed => ⟨?_, ?_⟩⟩
  · rw [serves.waiting, if_pos closed]
  · exact enqueue_closed ⟨stream', is', serves⟩ closed

/-- Reads in front of their chunk, behind it, without one, and behind the close. -/
def mixedCalls : List StreamCall :=
  [.enqueue (.text "a"), .read, .read, .read, .enqueue (.text "b"), .read, .close, .read,
    .enqueue (.text "c")]

theorem reads_answered_mixed : ∃ answers s' stream',
    Gives (performAll 0 0 mixedCalls) { held := #[⟨.stream {}, []⟩] } answers s' ∧
      s'.object 0 = .stream stream' ∧ stream'.channel.waiting = [] ∧
      answersOf 0 answers = [.chunk (.text "a")] ∧ answersOf 1 answers = [.chunk (.text "b")] ∧
      answersOf 2 answers = [.done] ∧ answersOf 4 answers = [.done] ∧ answersOf 5 answers = [] := by
  have new : Session.object { held := #[⟨.stream {}, []⟩] } 0 = .stream {} := rfl
  obtain ⟨answers, s', stream', given, is, _, all, _, closed⟩ := reads_answered mixedCalls new rfl
  exact ⟨answers, s', stream', given, is, (closed rfl).1, all 0, all 1, all 2, all 4, all 5⟩

end JsxPreview.Sandbox
