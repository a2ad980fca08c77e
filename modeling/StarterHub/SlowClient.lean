import StarterHub.HttpServer

/-!
# The slow client

One accepted connection against a clock, as the builder of `serve` configures it.  `hyper-util` first reads the
version: it waits, without any timer, for bytes that differ from the HTTP/2 preface or complete it.  Only then does an
HTTP/1 connection arm its header-read timeout; an HTTP/2 connection has no timeout at all.  The guard against slow
clients therefore counts from the byte that decides for HTTP/1, not from the accept, and a client that never sends
such a byte is never cut.

Instants are counted from the accept.
-/

namespace StarterHub

/-! ### Heads -/

inductive HttpVersion where
  | http1 | http2
  deriving DecidableEq

/-- The HTTP/2 preface: `PRI * HTTP/2.0\r\n\r\nSM\r\n\r\n`. -/
def preface : List UInt8 :=
  [80, 82, 73, 32, 42, 32, 72, 84, 84, 80, 47, 50, 46, 48, 13, 10, 13, 10, 83, 77, 13, 10, 13, 10]

/-- `ReadVersion` on the bytes so far, against what is left of the preface. -/
def readVersion : List UInt8 → List UInt8 → Option HttpVersion
  | [], _ => some .http2
  | _ :: _, [] => none
  | p :: preface, b :: bytes => if p = b then readVersion preface bytes else some .http1

/-- What a protocol makes of the bytes of a connection, as far as its first request head goes. -/
inductive HeadStatus where
  | incomplete | complete | invalid
  deriving DecidableEq

/-- The two parsers of hyper. -/
structure HeadParser where
  parse : HttpVersion → List UInt8 → HeadStatus

/-- Where the first request head is after these bytes; nothing is parsed before the version is read. -/
def HeadParser.head (parser : HeadParser) (bytes : List UInt8) : HeadStatus :=
  match readVersion preface bytes with
  | some version => parser.parse version bytes
  | none => .incomplete

theorem readVersion_append {start bytes : List UInt8} {version : HttpVersion}
    (h : readVersion start bytes = some version) (more : List UInt8) :
    readVersion start (bytes ++ more) = some version := by
  induction start generalizing bytes with
  | nil => exact h
  | cons p start ih =>
    cases bytes with
    | nil => cases h
    | cons b bytes =>
      rw [List.cons_append]
      unfold readVersion at h ⊢
      split
      · next heq =>
        rw [if_pos heq] at h
        exact ih h
      · next hne =>
        rw [if_neg hne] at h
        exact h

/-! ### The connection -/

/-- A connection up to the end of its first request head; `due` is the deadline of its timer, if it has one. -/
inductive ConnPhase where
  | sniffing
  | reading (version : HttpVersion) (due : Option Nat)
  | served
  | closed
  deriving DecidableEq

structure HttpConn where
  received : List UInt8
  phase : ConnPhase
  deriving DecidableEq

namespace HttpConn

def init : HttpConn := ⟨[], .sniffing⟩

/-- The connection is open and its first request head incomplete. -/
def waits (s : HttpConn) : Bool :=
  match s.phase with
  | .sniffing | .reading _ _ => true
  | .served | .closed => false

end HttpConn

namespace ConnectionBuilder

/-- The timer that starts with the reading of a head. -/
def arm (builder : ConnectionBuilder) (now : Nat) : HttpVersion → Option Nat
  | .http1 => if builder.http1.timer then builder.http1.headerReadTimeout.map (now + ·) else none
  | .http2 => if builder.http2.timer then builder.http2.timeout.map (now + ·) else none

end ConnectionBuilder

namespace HttpConn

/-- A timer that elapsed before the instant closes the connection. -/
def expire (s : HttpConn) (now : Nat) : HttpConn :=
  match s.phase with
  | .reading _ (some due) => if due < now then { s with phase := .closed } else s
  | _ => s

/-- The head after the bytes received, by the parser of the version. -/
def parseHead (parser : HeadParser) (s : HttpConn) (version : HttpVersion) (due : Option Nat) : HttpConn :=
  match parser.parse version s.received with
  | .incomplete => { s with phase := .reading version due }
  | .complete => { s with phase := .served }
  | .invalid => { s with phase := .closed }

/-- A byte arrives.  At the instant of the deadline the connection reads before it looks at its timer. -/
def receive (builder : ConnectionBuilder) (parser : HeadParser) (s : HttpConn) (arrival : Nat × UInt8) : HttpConn :=
  let s := s.expire arrival.1
  let s := { s with received := s.received ++ [arrival.2] }
  match s.phase with
  | .sniffing =>
    match readVersion preface s.received with
    | none => s
    | some version => s.parseHead parser version (builder.arm arrival.1 version)
  | .reading version due => s.parseHead parser version due
  | .served | .closed => s

end HttpConn

/-- What a client sends and when. -/
structure Schedule where
  arrivals : List (Nat × UInt8)
  sorted : arrivals.Pairwise fun x y => x.1 ≤ y.1

namespace Schedule

def before (schedule : Schedule) (now : Nat) : List (Nat × UInt8) :=
  schedule.arrivals.filter fun arrival => decide (arrival.1 < now)

/-- The bytes that arrive up to the instant. -/
def bytesBy (schedule : Schedule) (now : Nat) : List UInt8 := (schedule.before (now + 1)).map Prod.snd

end Schedule

namespace HttpConn

/-- The connection when the instant `now` comes: all that happened before it is done. -/
def stateAt (builder : ConnectionBuilder) (parser : HeadParser) (schedule : Schedule) (now : Nat) : HttpConn :=
  ((schedule.before now).foldl (receive builder parser) init).expire now

end HttpConn

/-! ### Schedules -/

private theorem prefix_filter {l : List (Nat × UInt8)} (h : l.Pairwise fun x y => x.1 ≤ y.1) (now : Nat) :
    l.filter (fun x => decide (x.1 < now)) <+: l := by
  induction l with
  | nil => exact List.prefix_refl _
  | cons x l ih =>
    obtain ⟨hx, hl⟩ := List.pairwise_cons.1 h
    by_cases hlt : x.1 < now
    · rw [List.filter_cons_of_pos (by simpa using hlt)]
      exact (List.prefix_cons_inj x).2 (ih hl)
    · have hnil : (x :: l).filter (fun x => decide (x.1 < now)) = [] := by
        refine List.filter_eq_nil_iff.2 fun y hy => ?_
        rcases List.mem_cons.1 hy with rfl | hy
        · simpa using hlt
        · have := hx y hy
          simp only [decide_eq_true_eq]
          omega
      rw [hnil]
      exact List.nil_prefix

namespace Schedule

variable {schedule : Schedule} {now now' : Nat}

theorem lt_of_mem_before {x : Nat × UInt8} (h : x ∈ schedule.before now) : x.1 < now := by
  simpa using (List.mem_filter.1 h).2

theorem sorted_before (now : Nat) : (schedule.before now).Pairwise fun x y => x.1 ≤ y.1 :=
  schedule.sorted.sublist List.filter_sublist

theorem before_before (h : now ≤ now') :
    (schedule.before now').filter (fun x => decide (x.1 < now)) = schedule.before now := by
  rw [before, List.filter_filter]
  refine List.filter_congr fun x _ => ?_
  simp only [Bool.and_eq_decide, decide_eq_true_eq]
  exact decide_eq_decide.2 ⟨And.left, fun hx => ⟨hx, by omega⟩⟩

theorem prefix_before (h : now ≤ now') : schedule.before now <+: schedule.before now' := by
  rw [← before_before h]
  exact prefix_filter (schedule.sorted_before now') now

end Schedule

/-! ### One byte -/

namespace HttpConn

variable {builder : ConnectionBuilder} {parser : HeadParser} {s : HttpConn} {l : List (Nat × UInt8)}

/-- The arrival `x` decides for the version, after the arrivals `before`. -/
structure Decides (version : HttpVersion) (before : List (Nat × UInt8)) (x : Nat × UInt8) : Prop where
  undecided : readVersion preface (before.map Prod.snd) = none
  decided : readVersion preface ((before ++ [x]).map Prod.snd) = some version

/-- What the connection is after the arrivals `l`, and why it is over if it is. -/
structure Follows (builder : ConnectionBuilder) (parser : HeadParser) (l : List (Nat × UInt8)) (s : HttpConn) :
    Prop where
  received : s.received = l.map Prod.snd
  sniffing : s.phase = .sniffing → readVersion preface (l.map Prod.snd) = none
  reading : ∀ version due, s.phase = .reading version due → ∃ before x after, l = before ++ x :: after ∧
    Decides version before x ∧ due = builder.arm x.1 version
  waiting : s.waits = true → ∀ bytes, bytes <+: l.map Prod.snd → parser.head bytes = .incomplete
  ended : s.waits = false → (∃ bytes, bytes <+: l.map Prod.snd ∧ parser.head bytes ≠ .incomplete) ∨
    ∃ version before x after due, l = before ++ x :: after ∧ Decides version before x ∧
      builder.arm x.1 version = some due ∧ ∃ y ∈ l, due < y.1

theorem follows_init : Follows builder parser [] init := by
  refine ⟨rfl, fun _ => rfl, fun _ _ h => (by cases h), fun _ bytes hb => ?_, fun h => (by cases h)⟩
  rw [List.map_nil, List.prefix_nil] at hb
  subst hb
  rfl

theorem Decides.version_eq {version : HttpVersion} {before after : List (Nat × UInt8)} {x : Nat × UInt8}
    (h : Decides version before x) : readVersion preface ((before ++ x :: after).map Prod.snd) = some version := by
  have := readVersion_append h.decided (after.map Prod.snd)
  simpa using this

theorem waits_expire (h : s.waits = false) (now : Nat) : (s.expire now).waits = false := by
  unfold expire
  split
  · split
    · rfl
    · exact h
  · exact h

/-- The heads of a longer schedule, once those of the shorter one are known. -/
private theorem incomplete_of_prefix {x : Nat × UInt8}
    (h : ∀ bytes, bytes <+: l.map Prod.snd → parser.head bytes = .incomplete)
    (hx : parser.head ((l ++ [x]).map Prod.snd) = .incomplete) :
    ∀ bytes, bytes <+: (l ++ [x]).map Prod.snd → parser.head bytes = .incomplete := by
  intro bytes hb
  rw [List.map_append, List.map_cons, List.map_nil, List.prefix_concat_iff] at hb
  rcases hb with rfl | hb
  · simpa using hx
  · exact h bytes hb

/-- The head is parsed with the new byte. -/
private theorem follows_parseHead {x : Nat × UInt8} {version : HttpVersion} {due : Option Nat} {phase : ConnPhase}
    (hwaiting : ∀ bytes, bytes <+: l.map Prod.snd → parser.head bytes = .incomplete)
    (hreading : ∃ before y after, l ++ [x] = before ++ y :: after ∧ Decides version before y ∧
      due = builder.arm y.1 version) :
    Follows builder parser (l ++ [x]) (parseHead parser ⟨(l ++ [x]).map Prod.snd, phase⟩ version due) := by
  obtain ⟨before, y, after, hl, hdecides, hdue⟩ := hreading
  have hhead : parser.head ((l ++ [x]).map Prod.snd) = parser.parse version ((l ++ [x]).map Prod.snd) := by
    rw [HeadParser.head, hl, hdecides.version_eq]
  unfold parseHead
  split
  · next hparse =>
    refine ⟨rfl, fun h => (by cases h), fun v d h => ?_,
      fun _ => incomplete_of_prefix hwaiting (hhead.trans hparse), fun h => (by cases h)⟩
    cases h
    exact ⟨before, y, after, hl, hdecides, hdue⟩
  all_goals
    next hparse =>
    refine ⟨rfl, fun h => (by cases h), fun _ _ h => (by cases h), fun h => (by cases h), fun _ => .inl ?_⟩
    refine ⟨_, List.prefix_refl _, ?_⟩
    rw [hhead, show parser.parse version _ = _ from hparse]
    simp

/-- A connection that is over stays so. -/
private theorem follows_over (hs : Follows builder parser l s) (h : s.waits = false) (x : Nat × UInt8) {s' : HttpConn}
    (hr : s'.received = (l ++ [x]).map Prod.snd) (hw : s'.waits = false) : Follows builder parser (l ++ [x]) s' := by
  refine ⟨hr, fun hp => ?_, fun v d hp => ?_, fun hw' => ?_, fun _ => ?_⟩
  · simp [waits, hp] at hw
  · simp [waits, hp] at hw
  · rw [hw] at hw'
    cases hw'
  · rcases hs.ended h with ⟨bytes, hb, hh⟩ | ⟨v, before, y, after, due, rfl, hd, ha, z, hz, hlt⟩
    · refine .inl ⟨bytes, hb.trans ?_, hh⟩
      rw [List.map_append]
      exact List.prefix_append _ _
    · exact .inr ⟨v, before, y, after ++ [x], due, by simp, hd, ha, z, List.mem_append_left _ hz, hlt⟩

theorem follows_receive (hs : Follows builder parser l s) (x : Nat × UInt8) :
    Follows builder parser (l ++ [x]) (receive builder parser s x) := by
  obtain ⟨received, phase⟩ := s
  obtain rfl : received = l.map Prod.snd := hs.received
  have hbytes : l.map Prod.snd ++ [x.2] = (l ++ [x]).map Prod.snd := by simp
  cases phase with
  | sniffing =>
    simp only [receive, expire, hbytes]
    split
    · next hnone =>
      have hhead : parser.head ((l ++ [x]).map Prod.snd) = .incomplete := by rw [HeadParser.head, hnone]
      exact ⟨rfl, fun _ => hnone, fun _ _ h => (by cases h), fun _ => incomplete_of_prefix (hs.waiting rfl) hhead,
        fun h => (by cases h)⟩
    · next version hsome =>
      exact follows_parseHead (hs.waiting rfl) ⟨l, x, [], rfl, ⟨hs.sniffing rfl, hsome⟩, rfl⟩
  | reading version due =>
    obtain ⟨before, y, after, hl, hdecides, hdue⟩ := hs.reading version due rfl
    have hreading : ∃ before y after, l ++ [x] = before ++ y :: after ∧ Decides version before y ∧
        due = builder.arm y.1 version := ⟨before, y, after ++ [x], by simp [hl], hdecides, hdue⟩
    have hfollows : ∀ phase, Follows builder parser (l ++ [x])
        (parseHead parser ⟨(l ++ [x]).map Prod.snd, phase⟩ version due) :=
      fun phase => follows_parseHead (hs.waiting rfl) hreading
    cases due with
    | none =>
      simp only [receive, expire, hbytes]
      exact hfollows _
    | some due =>
      by_cases hlt : due < x.1
      · -- the timer fires before the byte is read
        simp only [receive, expire, if_pos hlt, hbytes]
        refine ⟨rfl, fun h => (by cases h), fun _ _ h => (by cases h), fun h => (by cases h), fun _ => .inr ?_⟩
        exact ⟨version, before, y, after ++ [x], due, by simp [hl], hdecides, hdue.symm, x, by simp, hlt⟩
      · simp only [receive, expire, if_neg hlt, hbytes]
        exact hfollows _
  | served | closed =>
    simp only [receive, expire, hbytes]
    exact follows_over hs rfl x rfl rfl

theorem Follows.foldl (hs : Follows builder parser l s) (m : List (Nat × UInt8)) :
    Follows builder parser (l ++ m) (m.foldl (receive builder parser) s) := by
  induction m generalizing l s with
  | nil => simpa using hs
  | cons x m ih =>
    have := ih (follows_receive hs x)
    rwa [List.append_assoc, List.singleton_append] at this

theorem follows_run (builder : ConnectionBuilder) (parser : HeadParser) (l : List (Nat × UInt8)) :
    Follows builder parser l (l.foldl (receive builder parser) init) := follows_init.foldl l

/-! ### The guard -/

/-- At no instant later than the accept and the timeout the connection still waits for its first request head. -/
def Guarded (server : BoundServer) (parser : HeadParser) (schedule : Schedule) : Prop :=
  ∀ now, server.timeout < now → (stateAt server.builder parser schedule now).waits = false

/-- Up to the accept and the timeout the client ends its first head, well or badly, or it begins with something else
than the HTTP/2 preface at the very instant of the accept. -/
def Prompt (server : BoundServer) (parser : HeadParser) (schedule : Schedule) : Prop :=
  (∃ bytes, bytes <+: schedule.bytesBy server.timeout ∧ parser.head bytes ≠ .incomplete) ∨
    readVersion preface (schedule.bytesBy 0) = some .http1

variable {server : BoundServer} {schedule : Schedule}

theorem arm_builder {x due : Nat} {version : HttpVersion} (h : server.builder.arm x version = some due) :
    version = .http1 ∧ due = x + server.timeout := by
  cases version with
  | http1 => exact ⟨rfl, by simpa [ConnectionBuilder.arm, BoundServer.builder, eq_comm] using h⟩
  | http2 => cases h

/-- The bytes of the accept itself decide for the version iff they come with its deciding byte. -/
theorem Decides.at_accept {version : HttpVersion} {before after : List (Nat × UInt8)} {x : Nat × UInt8} {now : Nat}
    (hd : Decides version before x) (hl : schedule.before now = before ++ x :: after) (hnow : 0 < now) :
    x.1 = 0 ↔ readVersion preface (schedule.bytesBy 0) = some version := by
  have hsorted := schedule.sorted_before now
  have hfilter : schedule.before 1 = (before ++ x :: after).filter fun y => decide (y.1 < 1) := by
    rw [← hl, Schedule.before_before hnow]
  rw [hl, List.pairwise_append, List.pairwise_cons] at hsorted
  obtain ⟨hsorted, ⟨hafter, -⟩, hbefore⟩ := hsorted
  rw [Schedule.bytesBy, hfilter, List.filter_append]
  constructor
  · intro hx
    have hkeep : before.filter (fun y => decide (y.1 < 1)) = before := by
      refine List.filter_eq_self.2 fun y hy => ?_
      have := hbefore y hy x (List.mem_cons_self ..)
      simp only [decide_eq_true_eq]
      omega
    rw [hkeep, List.filter_cons_of_pos (by simp [hx])]
    exact hd.version_eq
  · intro hv
    by_contra hx
    have hdrop : (x :: after).filter (fun y => decide (y.1 < 1)) = [] := by
      refine List.filter_eq_nil_iff.2 fun y hy => ?_
      have : x.1 ≤ y.1 := by
        rcases List.mem_cons.1 hy with rfl | hy
        · exact Nat.le_refl _
        · exact hafter y hy
      simp only [decide_eq_true_eq]
      omega
    -- all these bytes came before the deciding one
    rw [hdrop, List.append_nil] at hv
    obtain ⟨more, hmore⟩ := (prefix_filter hsorted 1).map Prod.snd
    have := readVersion_append hv more
    rw [hmore, hd.undecided] at this
    cases this

/-- A client that is not prompt still has its connection right after the timeout. -/
private theorem prompt_of_guarded {parser : HeadParser} (h : Guarded server parser schedule) :
    Prompt server parser schedule := by
  by_contra hno
  obtain ⟨hparse, haccept⟩ := not_or.1 hno
  have hs := follows_run server.builder parser (schedule.before (server.timeout + 1))
  have hopen : ((schedule.before (server.timeout + 1)).foldl (receive server.builder parser) init).waits = true := by
    by_contra hw
    rcases hs.ended (by simpa using hw) with hhead | ⟨version, before, x, after, due, -, -, harm, y, hy, hlt⟩
    · exact hparse hhead
    · obtain ⟨-, rfl⟩ := arm_builder harm
      have := Schedule.lt_of_mem_before hy
      omega
  have hclosed := h (server.timeout + 1) (by omega)
  -- what is left is a timer that fires right after the timeout: it was armed at the accept
  unfold stateAt expire at hclosed
  split at hclosed
  · next version due hphase =>
    obtain ⟨before, x, after, hl, hd, harm⟩ := hs.reading _ _ hphase
    obtain ⟨rfl, rfl⟩ := arm_builder harm.symm
    split at hclosed
    · exact haccept ((hd.at_accept hl (by omega)).1 (by omega))
    · rw [hopen] at hclosed
      cases hclosed
  · rw [hopen] at hclosed
    cases hclosed

/-- The head of a prompt client is over in time, or its timer was armed at the accept. -/
private theorem Prompt.guarded {parser : HeadParser} (h : Prompt server parser schedule) :
    Guarded server parser schedule := by
  intro now hnow
  have hs := follows_run server.builder parser (schedule.before now)
  have hbefore : ∀ due, due < now → schedule.bytesBy due <+: (schedule.before now).map Prod.snd :=
    fun due hdue => (Schedule.prefix_before hdue).map _
  by_cases hw : ((schedule.before now).foldl (receive server.builder parser) init).waits = true
  · rcases h with ⟨bytes, hb, hhead⟩ | haccept
    · exact absurd (hs.waiting hw bytes (hb.trans (hbefore _ hnow))) hhead
    · obtain ⟨more, hmore⟩ := hbefore 0 (by omega)
      have hversion := readVersion_append haccept more
      rw [hmore] at hversion
      cases hphase : ((schedule.before now).foldl (receive server.builder parser) init).phase with
      | sniffing =>
        rw [hs.sniffing hphase] at hversion
        cases hversion
      | reading version due =>
        obtain ⟨before, x, after, hl, hd, harm⟩ := hs.reading _ _ hphase
        rw [hl, hd.version_eq] at hversion
        cases hversion
        have hx := (hd.at_accept hl (by omega)).2 haccept
        obtain rfl : due = some server.timeout := by simp [harm, hx, ConnectionBuilder.arm, BoundServer.builder]
        rw [stateAt, expire, hphase]
        simp [hnow, waits]
      | served => simp [waits, hphase] at hw
      | closed => simp [waits, hphase] at hw
  · exact waits_expire (by simpa using hw) now

/-- The slow-client guard holds of a client iff the client is prompt by itself. -/
theorem slow_client_guard (server : BoundServer) (parser : HeadParser) (schedule : Schedule) :
    Guarded server parser schedule ↔ Prompt server parser schedule :=
  ⟨prompt_of_guarded, Prompt.guarded⟩

/-- A client that connects and sends nothing. -/
def silent : Schedule := ⟨[], List.Pairwise.nil⟩

/-- No head is complete in nothing. -/
def noHead : HeadParser := ⟨fun _ _ => .incomplete⟩

/-- The shipped timeout of 30 seconds does not cut a silent client. -/
theorem slow_client_silent : ¬ Guarded ⟨"127.0.0.1:8080", fromSecs 30⟩ noHead silent := by
  intro h
  have hclosed := h (fromSecs 31) (by decide)
  cases hclosed

end HttpConn

end StarterHub
