import OnlineJudge.Answering

/-! The way of a request from its client to a worker and back: it goes each leg once, and in
order. -/
namespace OnlineJudge
open Transition

/-- The legs from the client through the relay to a worker, and back. -/
def way (x : ℕ) : List Hop :=
  [⟨.uplink, .frontIn, x⟩, ⟨.frontIn, .backOut, x⟩, ⟨.backOut, .inbox, x⟩, ⟨.inbox, .held, x⟩,
    ⟨.held, .outbox, x⟩, ⟨.outbox, .backIn, x⟩, ⟨.backIn, .frontOut, x⟩,
    ⟨.frontOut, .delivered, x⟩]

/-- The legs of a request that has come to this place. -/
def wayTo (p : Place) (x : ℕ) : List Hop := (way x).take (8-p.hopsLeft)

/-- The next leg. -/
def Hop.IsLeg (h : Hop) : Prop :=
  h.src ≠ h.dst ∧ wayTo h.dst h.number = wayTo h.src h.number ++ [h]

section Legs

theorem firstHop_isLeg {src dst : Place} (hne : src ≠ dst)
    (hway : ∀ x, wayTo dst x = wayTo src x ++ [⟨src, dst, x⟩]) (queue : List (Message Frame))
    (h : Hop) (hh : h ∈ firstHop src dst queue) : h.IsLeg := by
  obtain ⟨m, _, rfl⟩ := List.mem_map.mp hh
  exact ⟨hne, hway m.head.origin⟩

variable {k n : ℕ}

theorem hops_isLeg (s : Network k n) (a : NetAction k n) (h : Hop) (hh : h ∈ s.hops a) :
    h.IsLeg := by
  cases a with
  | send c m | discard i | advance i | stray i fs => simp [Network.hops] at hh
  | frontArrives c | dispatch i | receive i tools | backArrives i | route =>
    exact firstHop_isLeg (by decide) (fun _ => rfl) _ h hh
  | round =>
    rcases List.mem_append.mp hh with hh | hh <;>
      exact firstHop_isLeg (by decide) (fun _ => rfl) _ h hh
  | reply i =>
    obtain ⟨held, _, rfl⟩ := List.mem_map.mp hh
    exact ⟨Place.noConfusion, rfl⟩

theorem firstHop_filter (src dst : Place) (queue : List (Message Frame)) (x : ℕ) :
    (firstHop src dst queue).filter (fun h => h.number = x) = [] ∨
      (firstHop src dst queue).filter (fun h => h.number = x) = [⟨src, dst, x⟩] := by
  cases queue with
  | nil => exact Or.inl rfl
  | cons m rest =>
    by_cases hx : m.head.origin = x
    · right
      simp [firstHop_cons, hx]
    · left
      simp [firstHop_cons, hx]

/-- In one step a request makes at most one hop, or it would be on both sides of the relay. -/
theorem hops_filter (s : Network k n) (a : NetAction k n) (x : ℕ) :
    (s.hops a).filter (fun h => h.number = x) = [] ∨
      (∃ src dst, (s.hops a).filter (fun h => h.number = x) = [⟨src, dst, x⟩]) ∨
      (s.hops a).filter (fun h => h.number = x) =
        [⟨.frontIn, .backOut, x⟩, ⟨.backIn, .frontOut, x⟩] := by
  have hone : ∀ (src dst : Place) (queue : List (Message Frame)),
      (firstHop src dst queue).filter (fun h => h.number = x) = [] ∨
      (∃ src' dst', (firstHop src dst queue).filter (fun h => h.number = x) =
        [⟨src', dst', x⟩]) ∨
      (firstHop src dst queue).filter (fun h => h.number = x) =
        [⟨.frontIn, .backOut, x⟩, ⟨.backIn, .frontOut, x⟩] := by
    intro src dst queue
    rcases firstHop_filter src dst queue x with hnone | hhop
    · exact Or.inl hnone
    · exact Or.inr (Or.inl ⟨src, dst, hhop⟩)
  cases a with
  | send c m | discard i | advance i | stray i fs => exact Or.inl rfl
  | frontArrives c | dispatch i | receive i tools | backArrives i | route => exact hone _ _ _
  | round =>
    simp only [Network.hops, List.filter_append]
    -- one round may carry a message forth and its reply back
    rcases firstHop_filter .frontIn .backOut s.relay.front.input.queue x with hforth | hforth <;>
      rcases firstHop_filter .backIn .frontOut s.relay.back.input.queue x with hback | hback <;>
        rw [hforth, hback]
    · exact Or.inl rfl
    · exact Or.inr (Or.inl ⟨_, _, rfl⟩)
    · exact Or.inr (Or.inl ⟨_, _, rfl⟩)
    · exact Or.inr (Or.inr rfl)
  | reply i =>
    cases hheld : (s.reps i).held with
    | none =>
      left
      simp [Network.hops, hheld]
    | some held =>
      by_cases hx : held.envelope.head.origin = x
      · right
        left
        exact ⟨.held, .outbox, by simp [Network.hops, hheld, hx]⟩
      · left
        simp [Network.hops, hheld, hx]

end Legs

section Journey
variable {k n : ℕ} {identity : Fin k → Bytes} {host : Host} {json : Json.Codec}

/-- Being at one place. -/
def isAt (q : Place) (x : ℕ) (p : Place) (y : ℕ) : ℕ := if p = q ∧ y = x then 1 else 0

/-- Where request `x` is, if it has been sent, and the legs that it has made. -/
structure Travelled (s : Network k n) (hops : List Hop) (x : ℕ) (o : Option Place) : Prop where
  sent : o = none ↔ s.requests.length ≤ x
  place : ∀ q, s.load (isAt q x) = if o = some q then 1 else 0
  legs : hops.filter (fun h => h.number = x) = o.elim [] (fun p => wayTo p x)

/-- Only the hops of a request count for where it is. -/
theorem hopLoad_isAt (q : Place) (x : ℕ) (place : Hop → Place) (hops : List Hop) :
    hopLoad (isAt q x) place hops =
      hopLoad (isAt q x) place (hops.filter (fun h => h.number = x)) := by
  induction hops with
  | nil => rfl
  | cons h hops ih =>
    have hcons : ∀ hops', hopLoad (isAt q x) place (h :: hops') =
        isAt q x (place h) h.number+hopLoad (isAt q x) place hops' := by
      intro hops'
      simp [hopLoad]
    by_cases hx : h.number = x
    · rw [List.filter_cons_of_pos (by simpa using hx), hcons, hcons, ih]
    · rw [List.filter_cons_of_neg (by simpa using hx), hcons, ih]
      simp [isAt, hx]

theorem started_load (f : Place → ℕ → ℕ) {s : Network k n} (hs : s.Started) : s.load f = 0 := by
  obtain ⟨_, huplinks, hrelay, hreps, _, hdelivered⟩ := hs
  simp [Network.load, huplinks, hrelay, hreps, hdelivered, RepSock.load, deliveredLoad]

theorem travelled_send {s : Network k n} {hops : List Hop} {x : ℕ} (c : Fin k)
    (m : Message Bytes) (hs : ∃ o, Travelled s hops x o) :
    ∃ o, Travelled (s.send c m) hops x o := by
  obtain ⟨o, hsent, hplace, hlegs⟩ := hs
  have hlen : (s.send c m).requests.length = s.requests.length+1 := by simp [Network.send]
  by_cases hx : s.requests.length = x
  -- the request that is sent
  · have hnone : o = none := hsent.mpr hx.le
    refine ⟨some .uplink, ?_, ?_, ?_⟩
    · simp [hlen, hx]
    · intro q
      rw [load_send, hplace q, hnone]
      simp [isAt, hx]
    · rw [hlegs, hnone]
      rfl
  · refine ⟨o, ?_, ?_, hlegs⟩
    · rw [hsent, hlen]
      omega
    · intro q
      rw [load_send, hplace q]
      simp [isAt, hx]

theorem travelled_step (hid : Function.Injective identity) (hne : ∀ c, identity c ≠ [])
    {s t : Network k n} {a : NetAction k n} {hops : List Hop} {x : ℕ}
    (hcarried : Carried identity host json s) (hs : ∃ o, Travelled s hops x o)
    (h : Network.Steps identity host json s a t) :
    ∃ o, Travelled t (hops ++ s.hops a) x o := by
  by_cases hsend : ∃ c m, a = .send c m
  · obtain ⟨c, m, rfl⟩ := hsend
    obtain rfl : t = s.send c m := h
    rw [show s.hops (.send c m) = [] from rfl, List.append_nil]
    exact travelled_send c m hs
  obtain ⟨o, hsent, hplace, hlegs⟩ := hs
  have hmove : ∀ q, t.load (isAt q x)+
      hopLoad (isAt q x) Hop.src ((s.hops a).filter (fun h => h.number = x)) =
      s.load (isAt q x)+
        hopLoad (isAt q x) Hop.dst ((s.hops a).filter (fun h => h.number = x)) := by
    intro q
    rw [← hopLoad_isAt, ← hopLoad_isAt]
    exact (load_step (isAt q x) hid hne hcarried h (fun c m ha => hsend ⟨c, m, ha⟩)).2
  have hreq : t.requests = s.requests :=
    (load_step (isAt .uplink x) hid hne hcarried h (fun c m ha => hsend ⟨c, m, ha⟩)).1
  rcases hops_filter s a x with hnone | ⟨src, dst, hhop⟩ | hboth
  · refine ⟨o, by rw [hreq]; exact hsent, ?_, ?_⟩
    · intro q
      have hq := hmove q
      rw [hnone, hopLoad_nil, hopLoad_nil, hplace q] at hq
      exact hq
    · rw [List.filter_append, hnone, List.append_nil, hlegs]
  · have hmem : (⟨src, dst, x⟩ : Hop) ∈ s.hops a := by
      apply List.mem_of_mem_filter (p := fun h => h.number = x)
      rw [hhop]
      exact List.mem_singleton_self _
    obtain ⟨hdiffer, hway⟩ := hops_isLeg s a _ hmem
    have hfrom : o = some src := by
      have hq := hmove src
      rw [hhop, hopLoad_singleton, hopLoad_singleton, hplace src] at hq
      by_contra ho
      simp [isAt, ho, Ne.symm hdiffer] at hq
    refine ⟨some dst, ?_, ?_, ?_⟩
    · rw [hreq, ← hsent, hfrom]
      simp
    · intro q
      have hq := hmove q
      rw [hhop, hopLoad_singleton, hopLoad_singleton, hplace q, hfrom] at hq
      simp only [isAt, Option.some.injEq, and_true] at hq ⊢
      omega
    · rw [List.filter_append, hhop, hlegs, hfrom]
      exact hway.symm
  -- it would be on both sides of the relay
  · have hfront : o = some .frontIn := by
      have hq := hmove .frontIn
      rw [hboth, hplace] at hq
      by_contra ho
      simp [hopLoad, isAt, ho] at hq
    have hback : o = some .backIn := by
      have hq := hmove .backIn
      rw [hboth, hplace] at hq
      by_contra ho
      simp [hopLoad, isAt, ho] at hq
    rw [hfront] at hback
    simp at hback

/-- In every run, the hops of a request are the first legs of its way: it is never sent back, no
worker takes it up twice, and no two workers do. -/
theorem hops_in_order (hid : Function.Injective identity) (hne : ∀ c, identity c ≠ [])
    {s t : Network k n} {acts : List (NetAction k n)} {hops : List Hop} (hs : s.Started)
    (hrun : Observed (CarriedSteps identity host json) Network.hops s acts hops t) (x : ℕ) :
    hops.filter (fun h => h.number = x) <+: way x := by
  have hstart : ∃ o, Travelled s [] x o := by
    have hempty : s.requests = [] := hs.1
    refine ⟨none, by simp [hempty], ?_, rfl⟩
    intro q
    rw [started_load (isAt q x) hs]
    rfl
  obtain ⟨_, o, hend⟩ := hrun.invariant
    (fun s hops => Carried identity host json s ∧ ∃ o, Travelled s hops x o)
    ⟨started_carried hs, hstart⟩
    (fun s a t hops hs h => ⟨carried_step hid hne hs.1 h, travelled_step hid hne hs.1 hs.2 h.2⟩)
  rw [hend.legs]
  cases o with
  | none => exact List.nil_prefix
  | some p => exact List.take_prefix _ _

end Journey

section OneClient

theorem hops_in_order_oneClient :
    ∃ hops, Observed (CarriedSteps oneClient .standard pascalCodec) Network.hops freshNetwork
      ([.send 0 pascalRequest, .frontArrives 0, .round, .dispatch 0] ++
        ([.receive 0 (.ofRuns slowFirst), .advance 0, .reply 0] ++
          [.backArrives 0, .round, .route])) hops pascalDelivered ∧
      hops.filter (fun h => h.number = 0) <+: way 0 := by
  obtain ⟨hops, hobserved⟩ := pascalDelivered_run.observed Network.hops
  exact ⟨hops, hobserved,
    hops_in_order oneClient_injective oneClient_ne freshNetwork_started hobserved 0⟩

end OneClient

end OnlineJudge
