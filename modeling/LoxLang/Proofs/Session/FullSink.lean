import LoxLang.Proofs.Session.Prints

/-!
# A full sink cuts the output and nothing else

A sink that takes only so many bytes refuses the first print that does not fit, and keeps of it what
fits.  Up to there a session does not notice the limit.  The request whose print is refused ends there,
and everything it did before that print stays done.

* `Sink.capped`, `Answer.capped`, `Session.capped` — the same with a limit for all bytes together.
* `Sink.passes_capped`, `Sink.passes_overflow` — what a limit does to prints that fit and to prints
  that do not.
* `Session.Cut` — a request whose output does not fit, and how it ends with a limit.
* **`Session.full_sink_cuts`** — with a limit, a session answers as without, up to the first request
  whose output does not fit; this one is cut, and no byte is kept behind it.
-/

namespace LoxLang

namespace Sink

/-- The same sink with a limit for all the bytes that it takes; one that has a limit keeps it. -/
def capped (limit : Nat) : Sink → Sink
  | limited none flushFails arrived => limited (some (limit - arrived.bytes.size)) flushFails arrived
  | sink => sink

/-- A sink without a limit, with the bytes that have arrived. -/
def unlimited (arrived : ByteArray) : Sink := limited none false ⟨arrived⟩

/-- A sink with no room left. -/
def full (arrived : ByteArray) : Sink := limited (some 0) false ⟨arrived⟩

lemma quiet_limited (room : Option Nat) (arrived : Buffer) : (limited room false arrived).Quiet := rfl

/-- Without a limit all prints arrive. -/
lemma passes_unlimited (arrived : ByteArray) (prints : List Print) :
    (unlimited arrived).passes prints = .ok (unlimited (arrived ++ Print.joined prints)) :=
  passes_takes unlimited (fun _ _ => rfl) arrived prints

/-- Bytes that fit arrive also with a limit. -/
lemma write_capped {limit : Nat} {arrived bytes : ByteArray}
    (fits : (arrived ++ bytes).size ≤ limit) :
    ((unlimited arrived).capped limit).write bytes =
      (none, (unlimited (arrived ++ bytes)).capped limit) := by
  rw [ByteArray.size_append] at fits
  have room : bytes.size ≤ limit - arrived.size := by omega
  simp only [unlimited, capped, write, if_pos room, Buffer.write, ByteArray.size_append,
    Nat.sub_sub]

/-- Of bytes that do not fit as many arrive as fit. -/
lemma write_overflow {limit : Nat} {arrived bytes : ByteArray} (room : arrived.size ≤ limit)
    (exceeds : limit < (arrived ++ bytes).size) :
    ((unlimited arrived).capped limit).write bytes =
      (some .full, full ((arrived ++ bytes).extract 0 limit)) := by
  rw [ByteArray.size_append] at exceeds
  have short : ¬ bytes.size ≤ limit - arrived.size := by omega
  have whole : arrived.extract 0 limit = arrived := by
    rw [← Nat.max_eq_left room, ByteArray.extract_zero_max_size]
  simp only [unlimited, capped, write, if_neg short, Buffer.write, full, ByteArray.extract_append,
    whole, Nat.zero_sub]

/-- Prints that fit arrive also with a limit. -/
lemma passes_capped {limit : Nat} {arrived : ByteArray} {prints : List Print}
    (fits : (arrived ++ Print.joined prints).size ≤ limit) :
    ((unlimited arrived).capped limit).passes prints =
      .ok ((unlimited (arrived ++ Print.joined prints)).capped limit) := by
  induction prints generalizing arrived with
  | nil => rw [passes, Print.joined, ByteArray.append_empty]
  | cons print later ih =>
      rw [Print.joined, ← ByteArray.append_assoc] at fits ⊢
      have here : (arrived ++ print.bytes).size ≤ limit := by
        rw [ByteArray.size_append] at fits
        omega
      rw [passes, write_capped here]
      exact ih fits

/-- Prints that do not fit are taken up to the first that does not, and of that one as much as fits. -/
lemma passes_overflow {limit : Nat} {arrived : ByteArray} {prints : List Print}
    (room : arrived.size ≤ limit) (exceeds : limit < (arrived ++ Print.joined prints).size) :
    ∃ before print later, prints = before ++ print :: later ∧
      (arrived ++ Print.joined before).size ≤ limit ∧
      limit < (arrived ++ Print.joined before ++ print.bytes).size ∧
      ((unlimited arrived).capped limit).passes prints = .error (.full,
        print.machine.onto (full ((arrived ++ Print.joined prints).extract 0 limit))) := by
  induction prints generalizing arrived with
  | nil =>
      rw [Print.joined, ByteArray.append_empty] at exceeds
      omega
  | cons print later ih =>
      rw [Print.joined, ← ByteArray.append_assoc] at exceeds ⊢
      by_cases here : (arrived ++ print.bytes).size ≤ limit
      · obtain ⟨before, last, later, rfl, fits, stops, told⟩ := ih here exceeds
        refine ⟨print :: before, last, later, rfl, ?_, ?_, ?_⟩
        · rwa [Print.joined, ← ByteArray.append_assoc]
        · rwa [Print.joined, ← ByteArray.append_assoc]
        · rw [passes, write_capped here]
          exact told
      · have stops : limit < (arrived ++ print.bytes).size := Nat.lt_of_not_le here
        refine ⟨[], print, later, rfl, ?_, ?_, ?_⟩
        · rwa [Print.joined, ByteArray.append_empty]
        · rwa [Print.joined, ByteArray.append_empty]
        · have behind : (arrived ++ print.bytes ++ Print.joined later).extract 0 limit =
              (arrived ++ print.bytes).extract 0 limit := by
            have nothing : limit - (arrived ++ print.bytes).size = 0 := by omega
            rw [ByteArray.extract_append, nothing]
            simp
          rw [passes, write_overflow room stops, behind]

/-- A full sink stays as it is. -/
lemma passes_full (arrived : ByteArray) (prints : List Print) :
    (full arrived).passes prints = .ok (full arrived) ∨
      ∃ machine : Machine,
        (full arrived).passes prints = .error (.full, machine.onto (full arrived)) := by
  induction prints with
  | nil => exact .inl rfl
  | cons print later ih =>
      rw [passes]
      by_cases empty : print.bytes.size ≤ 0
      · have nothing : print.bytes = .empty := ByteArray.size_eq_zero_iff.mp (Nat.le_zero.mp empty)
        have stays : (full arrived).write print.bytes = (none, full arrived) := by
          simp only [full, write, nothing, Buffer.write, ByteArray.append_empty]
          rfl
        rw [stays]
        exact ih
      · have stays : (full arrived).write print.bytes = (some .full, full arrived) := by
          simp only [full, write, if_neg empty, Buffer.write, ByteArray.extract_same,
            ByteArray.append_empty]
        rw [stays]
        exact .inr ⟨print.machine, rfl⟩

end Sink

/-! ## Sessions with a limit -/

/-- The same answer where all bytes together have a limit. -/
def Answer.capped (limit : Nat) (answer : Answer) : Answer := answer.onto (answer.sink.capped limit)

namespace Session

/-- The same session where all bytes together have a limit. -/
def capped (limit : Nat) (session : Session) : Session :=
  session.onto (session.machine.sink.capped limit)

/-- All that would have arrived behind a request if the sink took everything. -/
def arrivedBehind (allowance : Nat) (session : Session) (request : Request) : ByteArray :=
  session.arrived ++ Print.joined (session.prints allowance request)

/-- A request whose output does not fit, and how it ends with a limit. -/
structure Cut (limit allowance : Nat) (session : Session) (request : Request) (answer : Answer)
    (after : Session) : Prop where
  /-- So far everything has fitted. -/
  fits : session.arrived.size ≤ limit
  /-- The output of the request does not fit. -/
  exceeds : limit < (session.arrivedBehind allowance request).size
  unlimited : ∀ answer after, session.respond allowance request = some (answer, after) →
    after.arrived = session.arrivedBehind allowance request
  asked : (session.capped limit).respond allowance request = some (answer, after)
  status : answer.status = .runtimeError
  value : answer.value = none
  diagnostics : answer.diagnostics = [.output "sink full"]
  /-- As many bytes are kept as there is room for. -/
  kept : after.arrived = (session.arrivedBehind allowance request).extract 0 limit
  /-- The first print that does not fit undoes all that comes behind it, and nothing else. -/
  effects : ∃ before print later, session.prints allowance request = before ++ print :: later ∧
    (session.arrived ++ Print.joined before).size ≤ limit ∧
    limit < (session.arrived ++ Print.joined before ++ print.bytes).size ∧
    after.machine = print.machine.onto after.machine.sink
  /-- No byte is taken any more. -/
  full : ∀ requests answers last, after.respondAll requests = some (answers, last) →
    last.arrived = after.arrived

/-- The sink has no limit. -/
def Unlimited (session : Session) : Prop := session.machine.sink = .unlimited session.arrived

section

variable {limit allowance : Nat} {session after last : Session} {request : Request}
  {others : List (Nat × Request)} {answer : Answer} {answers : List Answer} {arrived : ByteArray}

/-! ### Single requests -/

lemma Unlimited.passes (sink : session.Unlimited) (allowance : Nat) (request : Request) :
    session.machine.sink.passes (session.prints allowance request) =
      .ok (.unlimited (session.arrivedBehind allowance request)) := by
  rw [sink, Sink.passes_unlimited, arrivedBehind]

/-- Without a limit, what a request prints arrives. -/
lemma respond_unlimited (sink : session.Unlimited)
    (asked : session.respond allowance request = some (answer, after)) :
    after.Unlimited ∧ after.arrived = session.arrivedBehind allowance request := by
  obtain ⟨told, same⟩ := respond_taken allowance session request
  have own := same _ _ (Sink.quiet_limited _ _) (sink.passes allowance request)
  obtain ⟨answered, -, ends⟩ := Option.map_eq_some_iff.mp (own.symm.trans asked)
  cases ends
  exact ⟨rfl, rfl⟩

/-- A request whose output fits is answered as without a limit. -/
lemma respond_capped (sink : session.Unlimited)
    (fits : (session.arrivedBehind allowance request).size ≤ limit) :
    (session.capped limit).respond allowance request =
      (session.respond allowance request).map fun told =>
        (told.1.capped limit, told.2.capped limit) := by
  obtain ⟨told, same⟩ := respond_taken allowance session request
  have own := same _ _ (Sink.quiet_limited _ _) (sink.passes allowance request)
  have other := same (session.machine.sink.capped limit) _ (Sink.quiet_limited _ _) (by
    rw [sink]
    exact Sink.passes_capped fits)
  rw [capped, other, show session.respond allowance request = _ from own, Option.map_map]
  rfl

/-- A full sink stays full. -/
lemma respond_full (sink : session.machine.sink = .full arrived) (drained : session.Drained)
    (asked : session.respond allowance request = some (answer, after)) :
    after.machine.sink = .full arrived := by
  have here : session.onto (.full arrived) = session := by rw [← sink]; rfl
  rw [← here] at asked
  rcases Sink.passes_full arrived (session.prints allowance request) with taken | ⟨machine, refused⟩
  · obtain ⟨told, same⟩ := respond_taken allowance session request
    rw [same _ _ (Sink.quiet_limited _ _) taken] at asked
    obtain ⟨answered, -, ends⟩ := Option.map_eq_some_iff.mp asked
    cases ends
    rfl
  · have quiet : (machine.onto (.full arrived)).sink.Quiet := Sink.quiet_limited _ _
    obtain ⟨log, told⟩ := respond_refused_print drained quiet refused
    rw [told] at asked
    cases asked
    rfl

/-! ### Requests one after another -/

lemma respondAll_full : ∀ (requests : List (Nat × Request)) {session last : Session}
    {answers : List Answer}, session.machine.sink = .full arrived → session.Drained →
    session.respondAll requests = some (answers, last) → last.machine.sink = .full arrived
  | [], _, _, _, sink, _, asked => by cases asked; exact sink
  | (allowance, request) :: others, _, _, _, sink, drained, asked => by
      obtain ⟨answer, after, more, responded, followed, -⟩ := respondAll_cons.mp asked
      exact respondAll_full others (respond_full sink drained responded) (respond_drained responded)
        followed

/-- Without a limit, more and more arrives. -/
lemma respondAll_unlimited : ∀ (requests : List (Nat × Request)) {session last : Session}
    {answers : List Answer}, session.Unlimited → session.respondAll requests = some (answers, last) →
    last.Unlimited ∧ session.arrived.size ≤ last.arrived.size
  | [], _, _, _, sink, asked => by cases asked; exact ⟨sink, le_rfl⟩
  | (allowance, request) :: others, session, _, _, sink, asked => by
      obtain ⟨answer, after, more, responded, followed, -⟩ := respondAll_cons.mp asked
      obtain ⟨sink, behind⟩ := respond_unlimited sink responded
      obtain ⟨sink, grows⟩ := respondAll_unlimited others sink followed
      refine ⟨sink, le_trans ?_ grows⟩
      rw [behind, arrivedBehind, ByteArray.size_append]
      exact Nat.le_add_right _ _

/-- **As long as everything fits, a limit changes nothing.** -/
theorem respondAll_capped : ∀ (requests : List (Nat × Request)) {session last : Session}
    {answers : List Answer}, session.Unlimited → session.respondAll requests = some (answers, last) →
    last.arrived.size ≤ limit →
    (session.capped limit).respondAll requests =
      some (answers.map (·.capped limit), last.capped limit)
  | [], _, _, _, _, asked, _ => by cases asked; rfl
  | (allowance, request) :: others, session, _, _, sink, asked, fits => by
      obtain ⟨answer, after, more, responded, followed, rfl⟩ := respondAll_cons.mp asked
      obtain ⟨after_sink, behind⟩ := respond_unlimited sink responded
      have grows := (respondAll_unlimited others after_sink followed).2
      rw [behind] at grows
      refine respondAll_cons.mpr ⟨_, _, _, ?_,
        respondAll_capped others after_sink followed fits, rfl⟩
      rw [respond_capped sink (grows.trans fits), responded]
      rfl

/-- **A request whose output does not fit is cut.** -/
theorem respond_overflow (sink : session.Unlimited) (drained : session.Drained)
    (fits : session.arrived.size ≤ limit)
    (exceeds : limit < (session.arrivedBehind allowance request).size) :
    ∃ answer after, session.Cut limit allowance request answer after := by
  obtain ⟨before, print, later, split, before_fits, stops, told⟩ :=
    Sink.passes_overflow fits exceeds
  rw [← sink] at told
  obtain ⟨log, asked⟩ := respond_refused_print drained (Sink.quiet_limited _ _) told
  refine ⟨_, _, fits, exceeds, fun answer after told => (respond_unlimited sink told).2, asked,
    rfl, rfl, rfl, rfl, ⟨before, print, later, split, before_fits, stops, rfl⟩,
    fun requests answers last more => ?_⟩
  have stays := respondAll_full requests rfl (respond_drained asked) more
  rw [Session.arrived, stays]
  rfl

/-- If not everything fits, there is a first request that is cut. -/
theorem exists_cut : ∀ (requests : List (Nat × Request)) {session last : Session}
    {answers : List Answer}, session.Unlimited → session.Drained → session.arrived.size ≤ limit →
    session.respondAll requests = some (answers, last) → limit < last.arrived.size →
    ∃ earlier allowance request later told here answer after,
      requests = earlier ++ (allowance, request) :: later ∧
      session.respondAll earlier = some (told, here) ∧ told <+: answers ∧
      (session.capped limit).respondAll earlier =
        some (told.map (·.capped limit), here.capped limit) ∧
      here.Cut limit allowance request answer after
  | [], _, _, _, _, _, fits, asked, exceeds => by
      cases asked
      exact absurd fits (Nat.not_le_of_lt exceeds)
  | (allowance, request) :: others, session, _, _, sink, drained, fits, asked, exceeds => by
      obtain ⟨first, next, more, responded, followed, rfl⟩ := respondAll_cons.mp asked
      obtain ⟨next_sink, behind⟩ := respond_unlimited sink responded
      by_cases enough : next.arrived.size ≤ limit
      · obtain ⟨earlier, allowance', request', later, told, here, answer, after, rfl, reached,
          starts, capped, cut⟩ := exists_cut others next_sink (respond_drained responded) enough
            followed exceeds
        refine ⟨(allowance, request) :: earlier, allowance', request', later, first :: told, here,
          answer, after, rfl, respondAll_cons.mpr ⟨_, _, _, responded, reached, rfl⟩,
          List.cons_prefix_cons.mpr ⟨rfl, starts⟩, respondAll_cons.mpr ⟨_, _, _, ?_, capped, rfl⟩, cut⟩
        rw [respond_capped sink (behind ▸ enough), responded]
        rfl
      · have exceeds : limit < (session.arrivedBehind allowance request).size := by
          rw [← behind]
          exact Nat.lt_of_not_le enough
        obtain ⟨answer, after, cut⟩ := respond_overflow sink drained fits exceeds
        exact ⟨[], allowance, request, others, [], session, answer, after, rfl, rfl,
          List.nil_prefix, rfl, cut⟩

end

/-- **A full sink cuts the output and nothing else.**  A session on a sink without a limit is compared
with the same requests on a sink that takes `limit` bytes and no more.  If the whole output fits, then
every answer is the same, and so is all else apart from the room in the sink, and any next request whose
output does not fit is cut.  If it does not fit, then one request is the first whose output exceeds the
limit: it is cut, and up to there every answer is the same, and all else apart from the room. -/
theorem full_sink_cuts (limit : Nat) {clock : Nat → Float} {requests : List (Nat × Request)}
    {answers : List Answer} {last : Session}
    (reached : (start (.limited none false .empty) clock).respondAll requests =
      some (answers, last)) :
    let bounded := start (.limited (some limit) false .empty) clock
    (last.arrived.size ≤ limit →
      bounded.respondAll requests = some (answers.map (·.capped limit), last.capped limit) ∧
      ∀ allowance request, limit < (last.arrivedBehind allowance request).size →
        ∃ answer after, last.Cut limit allowance request answer after) ∧
    (limit < last.arrived.size →
      ∃ earlier allowance request later told here answer after,
        requests = earlier ++ (allowance, request) :: later ∧
        (start (.limited none false .empty) clock).respondAll earlier = some (told, here) ∧
        told <+: answers ∧
        bounded.respondAll earlier = some (told.map (·.capped limit), here.capped limit) ∧
        here.Cut limit allowance request answer after) := by
  have sink : (start (.limited none false .empty) clock).Unlimited := rfl
  have drained : (start (.limited none false .empty) clock).Drained := rfl
  refine ⟨fun fits => ⟨respondAll_capped requests sink reached fits, fun allowance request => ?_⟩, ?_⟩
  · exact respond_overflow (respondAll_unlimited requests sink reached).1
      (respondAll_drained requests drained reached) fits
  · exact exists_cut requests sink drained (Nat.zero_le limit) reached

/-- Room for six bytes: one request prints four, and the function that the next one calls prints nine,
of which two are kept. -/
theorem full_sink_cuts_call :
    let requests := [(20, Request.run "print nil;"),
      (20, .run "fun f() \x7b print true; print nil; \x7d f();")]
    ∃ answers last, (start (.limited none false .empty) fun _ => 0).respondAll requests =
        some (answers, last) ∧ 6 < last.arrived.size ∧
      ∃ earlier allowance request later told here answer after,
        requests = earlier ++ (allowance, request) :: later ∧
        (start (.limited (some 6) false .empty) fun _ => 0).respondAll earlier =
          some (told, here) ∧
        here.respond allowance request = some (answer, after) ∧
        answer.diagnostics = [.output "sink full"] := by
  intro requests
  have printed : ((start (.limited none false .empty) fun _ => 0).respondAll requests).map
      (fun told => told.2.arrived.size) = some 13 := by
    simp only [requests]
    decide +kernel
  clear_value requests
  obtain ⟨⟨answers, last⟩, reached, size⟩ := Option.map_eq_some_iff.mp printed
  have exceeds : 6 < last.arrived.size := by rw [size]; decide
  obtain ⟨earlier, allowance, request, later, told, here, answer, after, split, -, -, bounded, cut⟩ :=
    (full_sink_cuts 6 reached).2 exceeds
  exact ⟨answers, last, reached, exceeds, earlier, allowance, request, later, _, _, answer, after,
    split, bounded, cut.asked, cut.diagnostics⟩

end Session

end LoxLang
