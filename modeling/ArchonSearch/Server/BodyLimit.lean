import Mathlib.Algebra.GroupWithZero.Nat
import ArchonSearch.Lib.Run
import ArchonSearch.Py.Int
import ArchonSearch.Py.Utf8

/-!
# The cap on request bodies

`BodySizeLimitMiddleware` stands between the server and the application. It counts the body that it
passes on, and once there is too much of it, the application is told that the client has gone and
the client gets a 413. An application that answers before it has read everything has its answer held
back while the rest of the body is counted.

The application may call `receive` and `send` from several tasks, so that calls of both can be
suspended at once: `step` goes from one suspension of a call to its next, in whatever order the
server answers, and the application may do anything in between. What was counted is said by
`Counted`, what was sent by `Answering`, and `Crossed` that nothing goes out once the cap was
crossed.

The middleware does not mend an application that starts two responses: it passes both on; and it
drops the rest of a response whose start was out when the cap was crossed
(`two_starts_are_passed_on`). Otherwise the client gets one response, which is the application's or
the 413 (`caps_the_body`). Scopes of other types than `http` go to the application as they are, and
are left out here.
-/

namespace ArchonSearch.Server.BodyLimit

open Lib Py List Option

/-! ### Messages -/

/-- What `receive` returns. -/
inductive Incoming where
  /-- `http.request`. -/
  | request (body : List ℕ) (moreBody : Bool)
  | other (type : String)
  deriving DecidableEq

/-- `_DISCONNECT`. -/
def disconnect : Incoming := .other "http.disconnect"

def Incoming.bodyLength : Incoming → ℕ
  | .request body _ => body.length
  | .other _ => 0

/-- What is passed to `send`. -/
inductive Outgoing where
  /-- `http.response.start`. -/
  | start (status : ℕ) (headers : List (String × String))
  /-- `http.response.body`. -/
  | body (body : List ℕ) (moreBody : Bool)
  | other (type : String)
  deriving DecidableEq

def Outgoing.isStart : Outgoing → Bool
  | .start _ _ => true
  | _ => false

/-- The body of `_too_large_response`. -/
def tooLargeContent : List ℕ :=
  encodeUtf8 "\x7b\"detail\":\"request body too large\",\"code\":\"request_body_too_large\"\x7d"

/-- The first message of `_too_large_response`. -/
def tooLargeStart : Outgoing :=
  .start 413 [("content-length", toString tooLargeContent.length),
    ("content-type", "application/json")]

def tooLargeBody : Outgoing := .body tooLargeContent false

inductive Sent where
  | forwarded : Outgoing → Sent
  /-- From `_too_large_response`. -/
  | tooLarge : Outgoing → Sent
  deriving DecidableEq

def Sent.message : Sent → Outgoing
  | .forwarded m | .tooLarge m => m

def forwarded (sent : List Sent) : List Outgoing :=
  sent.filterMap fun
    | .forwarded m => some m
    | .tooLarge _ => none

def refusal (sent : List Sent) : List Outgoing :=
  sent.filterMap fun
    | .forwarded _ => none
    | .tooLarge m => some m

def starts (messages : List Outgoing) : ℕ := messages.countP Outgoing.isStart

/-! ### The scope -/

/-- `scope["headers"]`. -/
abbrev Headers := List (List ℕ × List ℕ)

/-- `_declared_length`. -/
def declaredLength : Headers → Option ℕ
  | [] => none
  | (name, value) :: headers =>
    if name = encodeUtf8 "content-length" then
      match intOfBytes value with
      | none => none
      | some length => if 0 ≤ length then some length.toNat else none
    else declaredLength headers

/-- `_awaits_continue`. -/
def awaitsContinue (headers : Headers) : Bool :=
  headers.any fun header => header.1 = encodeUtf8 "expect"

/-- `measure_unread`. -/
def measureUnread (headers : Headers) : Bool :=
  declaredLength headers == none && !awaitsContinue headers

/-! ### A request -/

inductive AppEnd where
  | returned
  /-- It raises an `Exception`. -/
  | raised
  | cancelled
  deriving DecidableEq

inductive App where
  | notCalled
  | running
  | ended : AppEnd → App
  deriving DecidableEq

/-- The variables of a `__call__`, its suspended calls and what has happened so far. -/
structure State where
  received : ℕ := 0
  exceeded : Bool := false
  answered : Bool := false
  bodyComplete : Bool := false
  /-- So many calls of `counting_receive` by the application are suspended. -/
  receiving : ℕ := 0
  /-- The messages of the calls of `guarded_send` that are suspended in `measure_rest_of_body`. -/
  measuring : List Outgoing := []
  refusing : Bool := false
  app : App := .running
  delivered : List Incoming := []
  /-- What the application has called `send` with. -/
  issued : List Outgoing := []
  sent : List Sent := []
  deriving DecidableEq

inductive Event where
  /-- The application calls `receive`. -/
  | receive
  /-- The server answers a `receive` of the application. -/
  | received : Incoming → Event
  /-- The application calls `send`. -/
  | send : Outgoing → Event
  /-- The server answers the `receive` of the measurement with this number. -/
  | measured : (call : ℕ) → Incoming → Event
  | refusal
  | ends : AppEnd → Event

variable (maxBytes : ℕ) (headers : Headers)

/-- The `__call__` up to its first suspension. -/
def start : State :=
  if (declaredLength headers).any (maxBytes < ·) then
    { app := .notCalled, refusing := true, sent := [.tooLarge tooLargeStart] }
  else {}

/-- `refuse`, up to its suspension. -/
def State.refuse (s : State) : State :=
  if s.answered then s
  else { s with answered := true, refusing := true, sent := s.sent ++ [.tooLarge tooLargeStart] }

/-- `counting_receive`, from the answer of the server on. -/
def State.countingReceive (s : State) : Incoming → State × Incoming
  | .request body moreBody =>
    let s := { s with received := s.received + body.length }
    if maxBytes < s.received then ({ s with exceeded := true }, disconnect)
    else ({ s with bodyComplete := !moreBody }, .request body moreBody)
  | .other type => ({ s with bodyComplete := true }, .other type)

/-- `guarded_send`, after the measurement. -/
def State.passOn (s : State) (message : Outgoing) : State :=
  if s.exceeded then if message.isStart then s.refuse else s
  else
    { s with
      answered := s.answered || message.isStart
      sent := s.sent ++ [.forwarded message] }

/-- `guarded_send`, up to its first suspension in the measurement, if there is one. -/
def State.guardedSend (s : State) (message : Outgoing) : State :=
  let s := { s with issued := s.issued ++ [message] }
  if message.isStart && measureUnread headers && !s.exceeded && !s.bodyComplete then
    { s with measuring := s.measuring ++ [message] }
  else s.passOn message

def State.measureRestOfBody (s : State) (call : ℕ) (message : Outgoing) (answer : Incoming) :
    State :=
  let s := (s.countingReceive maxBytes answer).1
  if !s.bodyComplete && !s.exceeded then s
  else { s with measuring := s.measuring.eraseIdx call }.passOn message

/-- The `__call__`, from the end of the application on. -/
def State.endApp (s : State) (how : AppEnd) : State :=
  let s := { s with app := .ended how }
  if how ≠ .cancelled ∧ s.exceeded then s.refuse else s

def step (s : State) : Event → Option State
  | .receive =>
    if s.app = .notCalled then none
    else if s.exceeded then some { s with delivered := s.delivered ++ [disconnect] }
    else some { s with receiving := s.receiving + 1 }
  | .received answer =>
    if s.receiving = 0 then none
    else
      let (s, message) := s.countingReceive maxBytes answer
      some { s with receiving := s.receiving - 1, delivered := s.delivered ++ [message] }
  | .send message => if s.app = .notCalled then none else some (s.guardedSend headers message)
  | .measured call answer =>
    s.measuring[call]?.map fun message => s.measureRestOfBody maxBytes call message answer
  | .refusal =>
    if s.refusing then
      some { s with refusing := false, sent := s.sent ++ [.tooLarge tooLargeBody] }
    else none
  | .ends how => if s.app = .running then some (s.endApp how) else none

variable {maxBytes} {headers} {s s' t : State} {message : Outgoing} {answer : Incoming} {e : Event}

/-! ### What was counted -/

def bodyBytes (delivered : List Incoming) : ℕ := (delivered.map Incoming.bodyLength).sum

@[simp] theorem bodyBytes_append (delivered : List Incoming) (m : Incoming) :
    bodyBytes (delivered ++ [m]) = bodyBytes delivered + m.bodyLength := by
  simp [bodyBytes]

/-- **What was counted**: the flag says whether it is too much, and the application has received no
more than was counted, and no more than the cap. -/
structure Counted (maxBytes : ℕ) (s : State) : Prop where
  exceeded_iff : s.exceeded = true ↔ maxBytes < s.received
  delivered_le : bodyBytes s.delivered ≤ s.received
  delivered_le_max : bodyBytes s.delivered ≤ maxBytes

/-- Counting a message changes nothing about the response. -/
theorem exists_countingReceive_eq (s : State) (answer : Incoming) :
    ∃ received exceeded bodyComplete, (s.exceeded = true → exceeded = true) ∧
      (s.countingReceive maxBytes answer).1 =
        { s with received := received, exceeded := exceeded, bodyComplete := bodyComplete } := by
  rcases answer with ⟨body, moreBody⟩ | type
  · rw [State.countingReceive]
    split_ifs
    · exact ⟨_, true, s.bodyComplete, fun _ => rfl, rfl⟩
    · exact ⟨_, s.exceeded, !moreBody, id, rfl⟩
  · exact ⟨s.received, s.exceeded, true, id, rfl⟩

theorem exists_refuse_eq (s : State) : ∃ answered refusing sent,
    s.refuse = { s with answered := answered, refusing := refusing, sent := sent } := by
  rw [State.refuse]
  split_ifs
  · exact ⟨_, _, _, rfl⟩
  · exact ⟨_, _, _, rfl⟩

theorem exists_passOn_eq (s : State) (message : Outgoing) : ∃ answered refusing sent,
    s.passOn message = { s with answered := answered, refusing := refusing, sent := sent } := by
  rw [State.passOn]
  split_ifs
  · exact exists_refuse_eq s
  · exact ⟨_, _, _, rfl⟩
  · exact ⟨_, _, _, rfl⟩

theorem exists_endApp_eq (s : State) (how : AppEnd) : ∃ answered refusing sent,
    s.endApp how =
      { s with answered := answered, refusing := refusing, sent := sent, app := .ended how } := by
  rw [State.endApp]
  split_ifs
  · exact exists_refuse_eq _
  · exact ⟨_, _, _, rfl⟩

theorem Counted.congr (h : Counted maxBytes s) (hrec : s'.received = s.received)
    (hexc : s'.exceeded = s.exceeded) (hdel : s'.delivered = s.delivered) :
    Counted maxBytes s' := by
  obtain ⟨hiff, hle, hmax⟩ := h
  exact ⟨by rw [hexc, hrec, hiff], by rwa [hdel, hrec], by rwa [hdel]⟩

/-- **A message is counted, and returned if it fits.** -/
theorem Counted.countingReceive (h : Counted maxBytes s) (answer : Incoming) :
    Counted maxBytes (s.countingReceive maxBytes answer).1 ∧
      ∀ receiving, Counted maxBytes
        { (s.countingReceive maxBytes answer).1 with
          receiving := receiving
          delivered := (s.countingReceive maxBytes answer).1.delivered ++
            [(s.countingReceive maxBytes answer).2] } := by
  obtain ⟨hiff, hle, hmax⟩ := h
  rcases answer with ⟨body, moreBody⟩ | type
  · rw [State.countingReceive]
    dsimp only
    split_ifs with hover
    · refine ⟨⟨iff_of_true rfl hover, ?_, hmax⟩,
        fun receiving => ⟨iff_of_true rfl hover, ?_, ?_⟩⟩ <;>
        simp only [bodyBytes_append, disconnect, Incoming.bodyLength] <;> omega
    · have hfits : ¬maxBytes < s.received := by omega
      have hflag : s.exceeded = true ↔ maxBytes < s.received + body.length :=
        iff_of_false (fun h => hfits (hiff.mp h)) hover
      refine ⟨⟨hflag, ?_, hmax⟩, fun receiving => ⟨hflag, ?_, ?_⟩⟩ <;>
        simp only [bodyBytes_append, Incoming.bodyLength] <;> omega
  · refine ⟨⟨hiff, hle, hmax⟩, fun receiving => ⟨hiff, ?_, ?_⟩⟩
    · simpa [State.countingReceive, Incoming.bodyLength] using hle
    · simpa [State.countingReceive, Incoming.bodyLength] using hmax

theorem Counted.step (h : Counted maxBytes s) (hs : step maxBytes headers s e = some s') :
    Counted maxBytes s' := by
  rcases e with - | answer | message | ⟨call, answer⟩ | - | how <;> simp only [BodyLimit.step] at hs
  · split_ifs at hs with _ hexc <;> cases hs
    · obtain ⟨hiff, hle, hmax⟩ := h
      exact ⟨hiff, by simpa [disconnect, Incoming.bodyLength] using hle,
        by simpa [disconnect, Incoming.bodyLength] using hmax⟩
    · exact h.congr rfl rfl rfl
  · split_ifs at hs
    cases hs
    exact (h.countingReceive answer).2 _
  · split_ifs at hs
    cases hs
    rw [State.guardedSend]
    split_ifs
    · exact h.congr rfl rfl rfl
    · obtain ⟨answered, refusing, sent, heq⟩ :=
        exists_passOn_eq { s with issued := s.issued ++ [message] } message
      rw [heq]
      exact h.congr rfl rfl rfl
  · obtain ⟨start, -, rfl⟩ := map_eq_some_iff.mp hs
    have hcntd := (h.countingReceive answer).1
    rw [State.measureRestOfBody]
    split_ifs
    · exact hcntd
    · obtain ⟨answered, refusing, sent, heq⟩ := exists_passOn_eq
        { (s.countingReceive maxBytes answer).1 with
          measuring := (s.countingReceive maxBytes answer).1.measuring.eraseIdx call } start
      rw [heq]
      exact hcntd.congr rfl rfl rfl
  · split_ifs at hs
    cases hs
    exact h.congr rfl rfl rfl
  · split_ifs at hs
    cases hs
    obtain ⟨answered, refusing, sent, heq⟩ := exists_endApp_eq s how
    rw [heq]
    exact h.congr rfl rfl rfl

/-! ### What was sent -/

@[simp] theorem forwarded_append_forwarded (sent : List Sent) (m : Outgoing) :
    forwarded (sent ++ [.forwarded m]) = forwarded sent ++ [m] := by simp [forwarded]

@[simp] theorem forwarded_append_tooLarge (sent : List Sent) (m : Outgoing) :
    forwarded (sent ++ [.tooLarge m]) = forwarded sent := by simp [forwarded]

@[simp] theorem refusal_append_forwarded (sent : List Sent) (m : Outgoing) :
    refusal (sent ++ [.forwarded m]) = refusal sent := by simp [refusal]

@[simp] theorem refusal_append_tooLarge (sent : List Sent) (m : Outgoing) :
    refusal (sent ++ [.tooLarge m]) = refusal sent ++ [m] := by simp [refusal]

@[simp] theorem starts_append (l l' : List Outgoing) : starts (l ++ l') = starts l + starts l' :=
  countP_append

structure NotCalled (receiving : ℕ) (delivered : List Incoming) (issued : List Outgoing)
    (sent : List Sent) : Prop where
  receiving : receiving = 0
  delivered : delivered = []
  issued : issued = []
  forwarded : forwarded sent = []
  refused : refusal sent ≠ []

/-- **What was sent**: the 413 as far as it has come, if the client was refused; and the messages of
the application, which hold no start if it was. -/
structure Answering (s : State) : Prop where
  refusal_cases : refusal s.sent = [] ∧ s.refusing = false ∨
    refusal s.sent = [tooLargeStart] ∧ s.refusing = true ∨
    refusal s.sent = [tooLargeStart, tooLargeBody] ∧ s.refusing = false
  why : refusal s.sent ≠ [] → s.exceeded = true ∨ s.app = .notCalled
  exclusive : refusal s.sent ≠ [] → starts (forwarded s.sent) = 0
  unanswered : s.answered = false →
    starts (forwarded s.sent) = 0 ∧ (refusal s.sent = [] ∨ s.app = .notCalled)
  answered : s.answered = true → starts (forwarded s.sent) ≠ 0 ∨ refusal s.sent ≠ []
  measuring : ∀ message ∈ s.measuring, message.isStart = true
  counted : starts (forwarded s.sent) + s.measuring.length ≤ starts s.issued
  notCalled : s.app = .notCalled → NotCalled s.receiving s.delivered s.issued s.sent

theorem answering_start : Answering (start maxBytes headers) := by
  rw [start]
  split_ifs
  · exact ⟨Or.inr (Or.inl ⟨rfl, rfl⟩), fun _ => Or.inr rfl, fun _ => rfl,
      fun _ => ⟨rfl, Or.inr rfl⟩, fun h => by simp at h, fun _ h => by simp at h, le_rfl,
      fun _ => ⟨rfl, rfl, rfl, rfl, by simp [refusal]⟩⟩
  · exact ⟨Or.inl ⟨rfl, rfl⟩, fun h => absurd rfl h, fun _ => rfl, fun _ => ⟨rfl, Or.inl rfl⟩,
      fun h => by simp at h, fun _ h => by simp at h, le_rfl, fun h => by simp at h⟩

/-- The cap may be crossed, and messages be counted, without a word to the client. -/
theorem Answering.count (h : Answering s) (received : ℕ) {exceeded : Bool} (bodyComplete : Bool)
    (hexc : s.exceeded = true → exceeded = true) : Answering
      { s with received := received, exceeded := exceeded, bodyComplete := bodyComplete } :=
  { h with why := fun hne => (h.why hne).imp_left hexc }

theorem Answering.refuse (h : Answering s) (hexc : s.exceeded = true)
    (happ : s.app ≠ .notCalled) : Answering s.refuse := by
  rw [State.refuse]
  split_ifs with hansd
  · exact h
  obtain ⟨hsts, href⟩ := h.unanswered (by simpa using hansd)
  have href := href.resolve_right happ
  exact
    { refusal_cases := Or.inr (Or.inl ⟨by simp [href], rfl⟩)
      why := fun _ => Or.inl hexc
      exclusive := fun _ => by simpa using hsts
      unanswered := fun hfls => by simp at hfls
      answered := fun _ => Or.inr (by simp)
      measuring := h.measuring
      counted := by simpa using h.counted
      notCalled := fun hnot => absurd hnot happ }

/-- A message that is passed on, where there is room for it among those that were issued. -/
theorem Answering.passOn (h : Answering s) (happ : s.app ≠ .notCalled)
    (hroom : starts (forwarded s.sent) + s.measuring.length + starts [message] ≤ starts s.issued) :
    Answering (s.passOn message) := by
  rw [State.passOn]
  split_ifs with hexc
  · exact h.refuse hexc happ
  · exact h
  · have href : refusal s.sent = [] := by
      by_contra hne
      exact (h.why hne).elim hexc happ
    have hsts : starts [message] = if message.isStart then 1 else 0 := by
      simp [starts, countP_singleton]
    refine
      { refusal_cases := by simpa using h.refusal_cases
        why := fun hne => absurd href (by simpa using hne)
        exclusive := fun hne => absurd href (by simpa using hne)
        unanswered := fun hfls => ?_
        answered := fun htrue => ?_
        measuring := h.measuring
        counted := ?_
        notCalled := fun hnot => absurd hnot happ }
    · obtain ⟨hansd, hmsg⟩ := Bool.or_eq_false_iff.mp hfls
      have hz := (h.unanswered hansd).1
      simp only [forwarded_append_forwarded, starts_append, hsts, hmsg, hz,
        refusal_append_forwarded, href]
      simp
    · left
      simp only [forwarded_append_forwarded, starts_append, hsts]
      rcases Bool.or_eq_true_iff.mp htrue with hansd | hmsg
      · have hne := (h.answered hansd).resolve_right (by simp [href])
        omega
      · rw [if_pos hmsg]
        omega
    · simp only [forwarded_append_forwarded, starts_append]
      omega

/-- A call of `send`. -/
theorem Answering.guardedSend (h : Answering s) (happ : s.app ≠ .notCalled) :
    Answering (s.guardedSend headers message) := by
  have hiss : starts (s.issued ++ [message]) = starts s.issued + starts [message] :=
    starts_append _ _
  have hcntd := h.counted
  have hcld : Answering { s with issued := s.issued ++ [message] } :=
    { h with
      counted := by
        dsimp only
        omega
      notCalled := fun hnot => absurd hnot happ }
  rw [State.guardedSend]
  split_ifs with hwt
  · have hmsg : message.isStart = true := by
      simp only [Bool.and_eq_true] at hwt
      exact hwt.1.1.1
    have hone : starts [message] = 1 := by simp [starts, hmsg]
    exact
      { hcld with
        measuring := fun m hm => by
          rcases mem_append.mp hm with hm | hm
          · exact h.measuring m hm
          · rw [mem_singleton.mp hm]
            exact hmsg
        counted := by
          dsimp only
          rw [length_append, length_singleton]
          omega }
  · refine hcld.passOn happ ?_
    dsimp only
    omega

/-- A measurement goes on, or has held a start back that is now passed on. -/
theorem Answering.measureRestOfBody (h : Answering s) {call : ℕ}
    (hmsg : s.measuring[call]? = some message) :
    Answering (s.measureRestOfBody maxBytes call message answer) := by
  obtain ⟨hc, hg⟩ := List.getElem?_eq_some_iff.mp hmsg
  have hcntd := h.counted
  have happ : s.app ≠ .notCalled := by
    intro hnot
    rw [(h.notCalled hnot).issued] at hcntd
    simp only [starts, countP_nil] at hcntd
    omega
  obtain ⟨received, exceeded, bodyComplete, hexc, heq⟩ := exists_countingReceive_eq s answer
  have hcnt := h.count received bodyComplete hexc
  rw [State.measureRestOfBody, heq]
  split_ifs
  · exact hcnt
  have hone : starts [message] = 1 := by
    simp [starts, h.measuring message (hg ▸ getElem_mem hc)]
  have hlen := length_eraseIdx_of_lt hc
  refine Answering.passOn
    { hcnt with
      measuring := fun m hm => h.measuring m (mem_of_mem_eraseIdx hm)
      counted := by
        dsimp only
        omega } happ ?_
  dsimp only
  omega

theorem Answering.completeRefusal (h : Answering s) (href : s.refusing = true) :
    Answering { s with refusing := false, sent := s.sent ++ [.tooLarge tooLargeBody] } := by
  have hrefu : refusal s.sent = [tooLargeStart] := by
    rcases h.refusal_cases with ⟨-, hnot⟩ | ⟨heq, -⟩ | ⟨-, hnot⟩
    · exact absurd (href.symm.trans hnot) (by simp)
    · exact heq
    · exact absurd (href.symm.trans hnot) (by simp)
  have hne : refusal s.sent ≠ [] := by simp [hrefu]
  exact
    { refusal_cases := Or.inr (Or.inr ⟨by simp [hrefu], rfl⟩)
      why := fun _ => h.why hne
      exclusive := fun _ => by simpa using h.exclusive hne
      unanswered := fun hfls =>
        ⟨by simpa using h.exclusive hne, Or.inr ((h.unanswered hfls).2.resolve_left hne)⟩
      answered := fun _ => Or.inr (by simp)
      measuring := h.measuring
      counted := by simpa using h.counted
      notCalled := fun hnot =>
        { h.notCalled hnot with
          forwarded := by simpa using (h.notCalled hnot).forwarded
          refused := by simp } }

theorem Answering.endApp (h : Answering s) (happ : s.app = .running) (how : AppEnd) :
    Answering (s.endApp how) := by
  have he : Answering { s with app := .ended how } :=
    { h with
      why := fun hne => Or.inl ((h.why hne).resolve_right (by simp [happ]))
      unanswered := fun hfls =>
        ⟨(h.unanswered hfls).1, Or.inl ((h.unanswered hfls).2.resolve_right (by simp [happ]))⟩
      notCalled := fun hnot => by simp at hnot }
  rw [State.endApp]
  split_ifs with hexc
  · exact he.refuse hexc.2 (by simp)
  · exact he

/-- **A step keeps what was sent in order.** -/
theorem Answering.step (h : Answering s) (hs : step maxBytes headers s e = some s') :
    Answering s' := by
  rcases e with - | answer | message | ⟨call, answer⟩ | - | how <;>
    simp only [BodyLimit.step] at hs
  · split_ifs at hs with happ hexc <;> cases hs
    · exact { h with notCalled := fun hnot => absurd hnot happ }
    · exact { h with notCalled := fun hnot => absurd hnot happ }
  · split_ifs at hs with hrec
    cases hs
    obtain ⟨received, exceeded, bodyComplete, hexc, heq⟩ := exists_countingReceive_eq s answer
    rw [heq]
    exact { h.count received bodyComplete hexc with
      notCalled := fun hnot => absurd (h.notCalled hnot).receiving hrec }
  · split_ifs at hs with happ
    cases hs
    exact h.guardedSend happ
  · obtain ⟨message, hmsg, rfl⟩ := map_eq_some_iff.mp hs
    exact h.measureRestOfBody hmsg
  · split_ifs at hs with href
    cases hs
    exact h.completeRefusal href
  · split_ifs at hs with happ
    cases hs
    exact h.endApp happ how

/-! ### After the cap was crossed -/

/-- The cap was crossed when the application had sent this much; nothing more of it goes out, and
its end is answered. -/
structure Crossed (messages : List Outgoing) (s : State) : Prop where
  exceeded : s.exceeded = true
  called : s.app ≠ .notCalled
  forwarded : forwarded s.sent = messages
  answered : ∀ how, s.app = .ended how → how ≠ .cancelled → s.answered = true

section Crossed

variable {messages : List Outgoing}

theorem Crossed.refuse (hexc : s.exceeded = true) (hcld : s.app ≠ .notCalled)
    (hfor : BodyLimit.forwarded s.sent = messages) : Crossed messages s.refuse := by
  rw [State.refuse]
  split_ifs with hansd
  · exact ⟨hexc, hcld, hfor, fun _ _ _ => hansd⟩
  · exact ⟨hexc, hcld, by simpa using hfor, fun _ _ _ => rfl⟩

theorem Crossed.passOn (h : Crossed messages s) : Crossed messages (s.passOn message) := by
  rw [State.passOn, if_pos h.exceeded]
  split_ifs
  · exact .refuse h.exceeded h.called h.forwarded
  · exact h

/-- **Once the cap was crossed, a step sends nothing of the application.** -/
theorem Crossed.step (h : Crossed messages s) (hs : step maxBytes headers s e = some s') :
    Crossed messages s' := by
  rcases e with - | answer | message | ⟨call, answer⟩ | - | how <;>
    simp only [BodyLimit.step] at hs
  · rw [if_neg h.called, if_pos h.exceeded] at hs
    cases hs
    exact { h with }
  · split_ifs at hs with hrec
    cases hs
    obtain ⟨received, exceeded, bodyComplete, hexc, heq⟩ := exists_countingReceive_eq s answer
    rw [heq]
    exact { h with exceeded := hexc h.exceeded }
  · rw [if_neg h.called] at hs
    cases hs
    rw [State.guardedSend]
    split_ifs
    · exact { h with }
    · exact Crossed.passOn { h with }
  · obtain ⟨message, -, rfl⟩ := map_eq_some_iff.mp hs
    obtain ⟨received, exceeded, bodyComplete, hexc, heq⟩ := exists_countingReceive_eq s answer
    rw [State.measureRestOfBody, heq]
    split_ifs
    · exact { h with exceeded := hexc h.exceeded }
    · exact Crossed.passOn { h with exceeded := hexc h.exceeded }
  · split_ifs at hs
    cases hs
    exact { h with forwarded := by simpa using h.forwarded }
  · split_ifs at hs with happ
    cases hs
    rw [State.endApp]
    split_ifs with href
    · exact .refuse h.exceeded (by simp) h.forwarded
    · refine { h with called := by simp, answered := fun how' he hhow => ?_ }
      obtain rfl := App.ended.inj he
      exact absurd ⟨hhow, h.exceeded⟩ href

end Crossed

/-! ### As long as it was not crossed -/

/-- Since a response was started, every message that the application has sent was passed on; unless
the cap was crossed, or another response was started. -/
def Passing (s t : State) : Prop :=
  t.exceeded = true ∨ 2 ≤ starts t.issued ∨
    ∃ later, t.issued = s.issued ++ later ∧ t.sent = s.sent ++ later.map .forwarded

variable (headers) in
/-- A call of `send` is noted, and counts nothing itself. -/
theorem guardedSend_issued_exceeded (s : State) (message : Outgoing) :
    (s.guardedSend headers message).issued = s.issued ++ [message] ∧
      (s.guardedSend headers message).exceeded = s.exceeded := by
  rw [State.guardedSend]
  split_ifs
  · exact ⟨rfl, rfl⟩
  · obtain ⟨answered, refusing, sent, heq⟩ :=
      exists_passOn_eq { s with issued := s.issued ++ [message] } message
    rw [heq]
    exact ⟨rfl, rfl⟩

/-- The cap stays crossed, and what was issued stays issued. -/
theorem step_mono (hs : step maxBytes headers s e = some s') :
    (s.exceeded = true → s'.exceeded = true) ∧ s.issued <+: s'.issued := by
  rcases e with - | answer | message | ⟨call, answer⟩ | - | how <;> simp only [step] at hs
  · split_ifs at hs <;> cases hs <;> exact ⟨id, prefix_rfl⟩
  · split_ifs at hs
    cases hs
    obtain ⟨received, exceeded, bodyComplete, hexc, heq⟩ := exists_countingReceive_eq s answer
    rw [heq]
    exact ⟨hexc, prefix_rfl⟩
  · split_ifs at hs
    cases hs
    obtain ⟨hiss, hexc⟩ := guardedSend_issued_exceeded headers s message
    rw [hiss, hexc]
    exact ⟨id, prefix_append _ _⟩
  · obtain ⟨message, -, rfl⟩ := map_eq_some_iff.mp hs
    obtain ⟨received, exceeded, bodyComplete, hexc, heq⟩ := exists_countingReceive_eq s answer
    rw [State.measureRestOfBody, heq]
    split_ifs
    · exact ⟨hexc, prefix_rfl⟩
    · obtain ⟨answered, refusing, sent, heq'⟩ := exists_passOn_eq
        { s with
          received := received
          exceeded := exceeded
          bodyComplete := bodyComplete
          measuring := s.measuring.eraseIdx call } message
      rw [heq']
      exact ⟨hexc, prefix_rfl⟩
  · split_ifs at hs
    cases hs
    exact ⟨id, prefix_rfl⟩
  · split_ifs at hs
    cases hs
    obtain ⟨answered, refusing, sent, heq⟩ := exists_endApp_eq s how
    rw [heq]
    exact ⟨id, prefix_rfl⟩

/-- While a response goes on that is the only one, no start is held back and no 413 is under way. -/
theorem Answering.of_started (h : Answering s) (hsta : starts (forwarded s.sent) ≠ 0)
    (hone : starts s.issued ≤ 1) : s.measuring = [] ∧ s.refusing = false := by
  constructor
  · have hcntd := h.counted
    exact length_eq_zero_iff.mp (by omega)
  · rcases h.refusal_cases with ⟨-, hnot⟩ | ⟨heq, -⟩ | ⟨-, hnot⟩
    · exact hnot
    · exact absurd (h.exclusive (by simp [heq])) hsta
    · exact hnot

/-- **While a response goes on, a step passes on what the application sends.** -/
theorem Passing.step (hansg : Answering t) (hsta : starts (forwarded s.sent) ≠ 0)
    (h : Passing s t) (hs : step maxBytes headers t e = some s') : Passing s s' := by
  obtain ⟨hmono, hpre⟩ := step_mono hs
  by_cases hexc : t.exceeded = true
  · exact Or.inl (hmono hexc)
  by_cases htwo : 2 ≤ starts t.issued
  · exact Or.inr (Or.inl (htwo.trans hpre.sublist.countP_le))
  obtain ⟨later, hiss, hsent⟩ := (h.resolve_left hexc).resolve_left htwo
  have hgoing : starts (forwarded t.sent) ≠ 0 := by
    rw [hsent, forwarded, filterMap_append, ← forwarded, starts_append]
    omega
  obtain ⟨hmeas, href⟩ := hansg.of_started hgoing (by omega)
  rcases e with - | answer | message | ⟨call, answer⟩ | - | how <;>
    simp only [BodyLimit.step] at hs
  · split_ifs at hs
    cases hs
    exact Or.inr (Or.inr ⟨later, hiss, hsent⟩)
  · split_ifs at hs
    cases hs
    obtain ⟨received, exceeded, bodyComplete, -, heq⟩ := exists_countingReceive_eq t answer
    rw [heq]
    exact Or.inr (Or.inr ⟨later, hiss, hsent⟩)
  · split_ifs at hs
    cases hs
    rcases hmsg : message.isStart with - | -
    · refine Or.inr (Or.inr ⟨later ++ [message], ?_, ?_⟩) <;>
        simp [State.guardedSend, State.passOn, hmsg, hexc, hiss, hsent]
    · -- the application starts a second response
      have hcntd := hansg.counted
      have hone : starts [message] = 1 := by simp [starts, hmsg]
      right
      left
      rw [(guardedSend_issued_exceeded headers t message).1, starts_append]
      omega
  · simp [hmeas] at hs
  · simp [href] at hs
  · split_ifs at hs
    cases hs
    refine Or.inr (Or.inr ⟨later, ?_, ?_⟩) <;> simp [State.endApp, hexc, hiss, hsent]

/-! ### The results -/

theorem starts_sent (sent : List Sent) : starts (sent.map Sent.message) =
    starts (forwarded sent) + starts (refusal sent) := by
  induction sent with
  | nil => rfl
  | cons m sent ih =>
    rcases m with m | m <;>
      simp only [starts, forwarded, refusal, map_cons, Sent.message, filterMap_cons,
        countP_cons] at ih ⊢ <;> omega

/-- If nothing is from the application, all is from the 413. -/
theorem sent_of_forwarded_eq_nil {sent : List Sent} (h : forwarded sent = []) :
    sent = (refusal sent).map .tooLarge := by
  induction sent with
  | nil => rfl
  | cons m sent ih =>
    rcases m with m | m
    · simp [forwarded] at h
    · have hrs : forwarded sent = [] := by simpa [forwarded] using h
      conv_lhs => rw [ih hrs]
      simp [refusal]

/-- The `__call__` has ended, and neither by being cancelled nor with a 413 under way. -/
def State.Finished (s : State) : Prop :=
  s.refusing = false ∧ ∃ how, s.app = .ended how ∧ how ≠ .cancelled

def tooLargeResponse : List Sent := [.tooLarge tooLargeStart, .tooLarge tooLargeBody]

variable {es es' : List Event}

theorem counted_answering (hs : Counted maxBytes s ∧ Answering s)
    (hr : run (step maxBytes headers) s es = some t) : Counted maxBytes t ∧ Answering t :=
  run_invariant (I := fun s => Counted maxBytes s ∧ Answering s)
    (fun _ _ _ h hst => ⟨h.1.step hst, h.2.step hst⟩) hs hr

theorem counted_start : Counted maxBytes (start maxBytes headers) := by
  rw [start]
  split_ifs <;> exact ⟨by simp, le_rfl, Nat.zero_le _⟩

/-- What has come of the 413, if nothing is from the application. -/
theorem Answering.prefix_of_forwarded_eq_nil (h : Answering s) (hnil : forwarded s.sent = []) :
    s.sent <+: tooLargeResponse := by
  rw [sent_of_forwarded_eq_nil hnil]
  rcases h.refusal_cases with ⟨heq, -⟩ | ⟨heq, -⟩ | ⟨heq, -⟩ <;> rw [heq]
  · exact nil_prefix
  · exact ⟨[.tooLarge tooLargeBody], rfl⟩
  · exact prefix_rfl

/-- A 413 that was started and is not under way is complete. -/
theorem Answering.refusal_eq (h : Answering s) (hrefu : refusal s.sent ≠ [])
    (href : s.refusing = false) : refusal s.sent = [tooLargeStart, tooLargeBody] := by
  rcases h.refusal_cases with ⟨heq, -⟩ | ⟨-, hnot⟩ | ⟨heq, -⟩
  · exact absurd heq hrefu
  · exact absurd (href.symm.trans hnot) (by simp)
  · exact heq

theorem Answering.starts_le_one (h : Answering s) (hone : starts s.issued ≤ 1) :
    starts (s.sent.map Sent.message) ≤ 1 := by
  rw [starts_sent]
  have hcntd := h.counted
  rcases h.refusal_cases with ⟨heq, -⟩ | ⟨heq, -⟩ | ⟨heq, -⟩
  · rw [heq]
    simp only [starts, countP_nil] at hcntd hone ⊢
    omega
  · rw [h.exclusive (by simp [heq]), heq]
    decide +kernel
  · rw [h.exclusive (by simp [heq]), heq]
    decide +kernel

/-- **A cap that is crossed before the response is answered with the 413.** -/
theorem Crossed.refusal_eq {messages : List Outgoing} (h : Crossed messages s)
    (hansg : Answering s) (hsts : starts messages = 0) (hfin : s.Finished) :
    refusal s.sent = [tooLargeStart, tooLargeBody] := by
  obtain ⟨href, how, he, hhow⟩ := hfin
  refine hansg.refusal_eq ?_ href
  exact (hansg.answered (h.answered how he hhow)).resolve_left
    (by rw [h.forwarded]; exact not_not.mpr hsts)

/-- An application that is not called is never called. -/
theorem notCalled_step (h : Answering s) (happ : s.app = .notCalled)
    (hs : step maxBytes headers s e = some s') : s'.app = .notCalled := by
  obtain ⟨hrec, -, hiss, -, -⟩ := h.notCalled happ
  have hmeas : s.measuring = [] := by
    have hcntd := h.counted
    rw [hiss] at hcntd
    simp only [starts, countP_nil] at hcntd
    exact length_eq_zero_iff.mp (by omega)
  rcases e with - | answer | message | ⟨call, answer⟩ | - | how <;>
    simp only [step, happ, hrec, hmeas] at hs
  · simp at hs
  · simp at hs
  · simp at hs
  · simp at hs
  · split_ifs at hs
    cases hs
    rfl
  · simp at hs

/-- **The cap on request bodies.** Whatever the server and the application do, and in whatever
order, in every run of a request
* the application receives no more than the cap;
* no more than one response is started, if the application starts no more than one;
* if the cap was crossed before the start of its response was passed on, nothing more of the
  application is sent, but the 413 alone, and all of it once the call has ended;
* as long as the cap is not crossed, all that the application sends after its start was passed on
  is passed on, in order;
* if the declared length is over the cap, the application receives nothing and the 413 alone is
  sent. -/
theorem caps_the_body (hrun : run (step maxBytes headers) (start maxBytes headers) es = some s)
    (hrun' : run (step maxBytes headers) s es' = some t) :
    bodyBytes t.delivered ≤ maxBytes ∧
    (starts t.issued ≤ 1 → starts (t.sent.map Sent.message) ≤ 1) ∧
    (s.exceeded = true → s.app = .running → starts (forwarded s.sent) = 0 →
      forwarded t.sent = forwarded s.sent ∧
      (t.Finished → refusal t.sent = [tooLargeStart, tooLargeBody]) ∧
      (forwarded s.sent = [] →
        t.sent <+: tooLargeResponse ∧ (t.Finished → t.sent = tooLargeResponse))) ∧
    (t.exceeded = false → starts (forwarded s.sent) ≠ 0 → starts t.issued ≤ 1 →
      ∃ later, t.issued = s.issued ++ later ∧ t.sent = s.sent ++ later.map .forwarded) ∧
    ((∃ length, declaredLength headers = some length ∧ maxBytes < length) →
      t.delivered = [] ∧ t.sent <+: tooLargeResponse ∧
        (t.refusing = false → t.sent = tooLargeResponse)) := by
  obtain ⟨hcntd, hansg⟩ := counted_answering ⟨counted_start, answering_start⟩ hrun
  obtain ⟨hcntd', hansg'⟩ := counted_answering ⟨hcntd, hansg⟩ hrun'
  refine ⟨hcntd'.delivered_le_max, hansg'.starts_le_one, fun hexc happ hsts => ?_,
    fun hexc hsts hone => ?_, ?_⟩
  · have hcros : Crossed (forwarded s.sent) t :=
      run_invariant (fun _ _ _ h hs => h.step hs)
        ⟨hexc, by simp [happ], rfl, fun how he => by simp [happ] at he⟩ hrun'
    have href := hcros.refusal_eq hansg' hsts
    refine ⟨hcros.forwarded, href, fun hnil => ?_⟩
    have hnil := hcros.forwarded.trans hnil
    refine ⟨hansg'.prefix_of_forwarded_eq_nil hnil, fun hfin => ?_⟩
    rw [sent_of_forwarded_eq_nil hnil, href hfin]
    rfl
  · have hpas : Answering t ∧ Passing s t :=
      run_invariant (I := fun t => Answering t ∧ Passing s t)
        (fun _ _ _ h hs => ⟨h.1.step hs, h.2.step h.1 hsts hs⟩)
        ⟨hansg, Or.inr (Or.inr ⟨[], by simp, by simp⟩)⟩ hrun'
    exact (hpas.2.resolve_left (by simp [hexc])).resolve_left (by omega)
  · rintro ⟨length, hlen, hover⟩
    have happ : (start maxBytes headers).app = .notCalled := by simp [start, hlen, hover]
    have hwh : run (step maxBytes headers) (start maxBytes headers) (es ++ es') = some t := by
      rw [run_append, hrun]
      exact hrun'
    have hnot : Answering t ∧ t.app = .notCalled :=
      run_invariant (I := fun s => Answering s ∧ s.app = .notCalled)
        (fun _ _ _ h hs => ⟨h.1.step hs, notCalled_step h.1 h.2 hs⟩)
        ⟨answering_start, happ⟩ hwh
    obtain ⟨-, hdel, -, hfor, hrefus⟩ := hansg'.notCalled hnot.2
    refine ⟨hdel, hansg'.prefix_of_forwarded_eq_nil hfor, fun hrefu => ?_⟩
    rw [sent_of_forwarded_eq_nil hfor, hansg'.refusal_eq hrefus hrefu]
    rfl

/-- Two parts of an upload, three bytes and two, of which the application has asked for both. -/
def oversizedUpload : List Event :=
  [.receive, .received (.request [1, 2, 3] true), .receive, .received (.request [4, 5] false)]

def answers : List Event :=
  [.send (.start 200 []), .refusal, .send (.body [6] false), .ends .returned]

def crossedState : State :=
  { received := 5
    exceeded := true
    bodyComplete := false
    delivered := [.request [1, 2, 3] true, disconnect] }

def refusedState : State :=
  { crossedState with
    answered := true
    app := .ended .returned
    issued := [.start 200 [], .body [6] false]
    sent := tooLargeResponse }

theorem caps_the_body_oversizedUpload :
    bodyBytes refusedState.delivered ≤ 4 ∧ refusedState.sent = tooLargeResponse := by
  have hupl : run (step 4 []) (start 4 []) oversizedUpload = some crossedState := by
    decide +kernel
  have hans : run (step 4 []) crossedState answers = some refusedState := by decide +kernel
  obtain ⟨hrec, -, hcros, -⟩ := caps_the_body hupl hans
  exact ⟨hrec, ((hcros rfl rfl rfl).2.2 rfl).2 ⟨rfl, .returned, rfl, by decide⟩⟩

/-- A client that waits before it sends its body: nothing is measured ahead of the answer. -/
def expecting : Headers := [(encodeUtf8 "expect", encodeUtf8 "100-continue")]

/-- **Two starts are passed on**: of an application that starts two responses, both go out. Of one
that crosses the cap once its start is out, nothing more does, nor does a 413. -/
theorem two_starts_are_passed_on :
    (∃ t, run (step 4 []) (start 4 []) [.send (.start 200 []), .measured 0 (.request [] false),
        .send (.start 500 [])] = some t ∧
      t.sent.map Sent.message = [.start 200 [], .start 500 []]) ∧
    ∃ t, run (step 4 expecting) (start 4 expecting) [.send (.start 200 []), .receive,
        .received (.request [1, 2, 3, 4, 5] false), .send (.body [6] false), .ends .returned] =
          some t ∧
      t.exceeded = true ∧ t.sent = [.forwarded (.start 200 [])] :=
  ⟨⟨_, rfl, by decide +kernel⟩, ⟨_, rfl, by decide +kernel, by decide +kernel⟩⟩

end ArchonSearch.Server.BodyLimit
