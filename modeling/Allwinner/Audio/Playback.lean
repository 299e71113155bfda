import Allwinner.Audio.Recording

/-!
# What is played

The handler of the DMA interrupt fills the descriptor the engine is not at with the next packet of
the session, and the engine plays its descriptors in turn. The packets are part of the events: they
are what the session answers if it is asked.
-/

namespace Allwinner.Audio

open Library (System)

/-- The driver with the samples of its descriptors. Without a packet there is silence. -/
structure Player (α : Type*) where
  driver : State
  data : Nat → Option α

/-- An event, with the packet the session has if the handler asks for one. -/
inductive PlayEvent (α : Type*) where
  | txComplete
  | rxComplete
  | handleDmaIrq (packet : Option α)

inductive Observation (α : Type*) where
  /-- The engine has played the packet. -/
  | played (packet : Option α)
  /-- The descriptor was filled while the engine was at the other one. -/
  | filled (descr playing : Nat) (packet : Option α)

namespace Player

variable {α : Type*}

/-- `fill`. -/
def fill (p : Player α) (descr : Nat) (packet : Option α) : Player α :=
  { p with data := fun i => if i = descr then packet else p.data i }

/-- `tx`. -/
def tx (p : Player α) (packet : Option α) : Player α × List (Observation α) :=
  match p.driver.txQueue with
  | [] => ({ p.fill 0 packet with driver := p.driver.tx }, [.filled 0 (p.driver.txCompleted % TX) packet])
  | descr :: _ =>
    ({ p.fill descr packet with driver := p.driver.tx }, [.filled descr (p.driver.txCompleted % TX) packet])

/-- The transmitting half of `handle_dma_irq`. -/
def handleTx (p : Player α) (packet : Option α) : Player α × List (Observation α) :=
  let (pending, irq) := irqPending p.driver.irq txChannel FULL_PACKET
  let p := { p with driver := { p.driver with irq } }
  if pending && p.driver.txQueue.head?.any (· ≠ p.driver.txCompleted % TX) then p.tx packet else (p, [])

/-- `handle_dma_irq`. -/
def handleDmaIrq (p : Player α) (packet : Option α) : Player α × List (Observation α) :=
  let (p, os) := p.handleTx packet
  ({ p with driver := p.driver.handleRx.1 }, os)

/-- The constructor of `Main`, with what the pages of the descriptors held before. -/
def init (pages : Nat → Option α) (packet : Option α) : Player α :=
  (tx ⟨{ rxQueue := List.range RX }, pages⟩ packet).1

end Player

/-- The engine, the driver and the session. -/
def playback (α : Type*) : System (Player α) (PlayEvent α) (Observation α) where
  step p
    | .txComplete => ({ p with driver := audio.next p.driver .txComplete },
        [.played (p.data (p.driver.txCompleted % TX))])
    | .rxComplete => ({ p with driver := audio.next p.driver .rxComplete }, [])
    | .handleDmaIrq packet => p.handleDmaIrq packet

-- ---------------------------------------------------------------------------
-- The packets of a run
-- ---------------------------------------------------------------------------

section Log

variable {α : Type*}

def Observation.played? : Observation α → Option (Option α)
  | .played packet => some packet
  | _ => none

def Observation.filled? : Observation α → Option (Option α)
  | .filled _ _ packet => some packet
  | _ => none

/-- The packets that were played. -/
def played (os : List (Observation α)) : List (Option α) := os.filterMap Observation.played?

/-- The packets that were fetched from the session. -/
def fetched (os : List (Observation α)) : List (Option α) := os.filterMap Observation.filled?

/-- The descriptor filled is not the one the engine is at. -/
def Observation.Safe : Observation α → Prop
  | .filled descr playing _ => descr ≠ playing
  | _ => True

end Log

def State.txPending (s : State) : Bool := (irqPending s.irq txChannel FULL_PACKET).1

section Laws

variable {α : Type*} {p : Player α} {s : State} {os os' : List (Observation α)} {first packet : Option α}
  {pages : Nat → Option α} {e : PlayEvent α}

/-- The interrupt of a packet is handled before the engine has finished the next one. At first
there is time for two. -/
def InTime (p : Player α) : PlayEvent α → Prop
  | .txComplete => 2 ≤ p.driver.txCompleted → p.driver.txPending = false
  | _ => True

instance : ∀ (p : Player α) (e : PlayEvent α), Decidable (InTime p e)
  | _, .txComplete => inferInstanceAs (Decidable (_ → _))
  | _, .rxComplete => inferInstanceAs (Decidable True)
  | _, .handleDmaIrq _ => inferInstanceAs (Decidable True)

@[simp] theorem played_append : played (os ++ os') = played os ++ played os' := List.filterMap_append

@[simp] theorem fetched_append : fetched (os ++ os') = fetched os ++ fetched os' := List.filterMap_append

/-- What there is to play: the first packet, what the other descriptor held, and from then on what
was fetched, beginning with the first packet once more. -/
def program (pages : Nat → Option α) (first : Option α) (os : List (Observation α)) : List (Option α) :=
  first :: pages 1 :: first :: fetched os

/-- The descriptors hold the last two packets of the program. -/
structure Track (pages : Nat → Option α) (first : Option α) (os : List (Observation α)) (p : Player α) :
    Prop where
  irq : ∃ rx, p.driver.irq = irqOf p.driver.txPending rx
  queue : p.driver.txQueue = [((fetched os).length + 1) % TX, (fetched os).length % TX]
  last : (program pages first os)[(fetched os).length + 2]? = some (p.data ((fetched os).length % TX))
  previous : (program pages first os)[(fetched os).length + 1]? = some (p.data (((fetched os).length + 1) % TX))
  played : played os = (program pages first os).take p.driver.txCompleted
  /-- An interrupt for a packet after the first two is pending for as long as none was fetched. -/
  count : (p.driver.txCompleted < 2 ∧ (fetched os).length = 0 ∧
      (p.driver.txPending = true → p.driver.txCompleted = 1)) ∨
    (2 ≤ p.driver.txCompleted ∧
      (fetched os).length + 1 + p.driver.txPending.toNat = p.driver.txCompleted)

theorem txPending_irqOf (h : s.irq = irqOf tx rx) : s.txPending = tx := by
  rw [State.txPending, h, irqPending_tx]

/-- Recording leaves playing alone. -/
theorem handleRx_tx (h : s.irq = irqOf tx rx) : s.handleRx.1.irq = irqOf tx false ∧
    s.handleRx.1.txQueue = s.txQueue ∧ s.handleRx.1.txCompleted = s.txCompleted := by
  unfold State.handleRx State.rx
  rw [h, irqPending_rx]
  cases rx with
  | false => exact ⟨rfl, rfl, rfl⟩
  | true =>
    cases s.rxQueue <;> exact ⟨rfl, rfl, rfl⟩

theorem track_init : Track pages first [] (Player.init pages first) := by
  have hdriver : (Player.init pages first).driver = State.init := rfl
  have hpending : State.init.txPending = false := rfl
  constructor
  case irq => exact ⟨false, by rw [hdriver, hpending]; rfl⟩
  case count => exact .inl (by rw [hdriver, hpending]; exact ⟨by decide, rfl, by decide⟩)
  all_goals rfl

theorem length_program : (program pages first os).length = (fetched os).length + 3 := rfl

/-- What the engine plays is next in the program. -/
theorem Track.playing (h : Track pages first os p)
    (htime : 2 ≤ p.driver.txCompleted → p.driver.txPending = false) :
    (program pages first os)[p.driver.txCompleted]? = some (p.data (p.driver.txCompleted % TX)) := by
  obtain ⟨hlt, hzero, -⟩ | ⟨hle, hcount⟩ := h.count
  · have hlast := h.last
    have hprevious := h.previous
    rw [hzero] at hlast hprevious
    match hc : p.driver.txCompleted with
    | 0 => exact hlast
    | 1 => exact hprevious
    | n + 2 => omega
  · rw [htime hle, Bool.toNat_false, Nat.add_zero] at hcount
    rw [← hcount]
    exact h.previous

theorem Track.txComplete (h : Track pages first os p)
    (htime : 2 ≤ p.driver.txCompleted → p.driver.txPending = false) :
    Track pages first (os ++ (playback α).obs p .txComplete) ((playback α).next p .txComplete) := by
  obtain ⟨rx, hirq⟩ := h.irq
  have hobs : (playback α).obs p .txComplete = [.played (p.data (p.driver.txCompleted % TX))] := rfl
  have hraised : raise p.driver.irq txChannel = irqOf true rx := by rw [hirq, raise_tx]
  have hnext : (playback α).next p .txComplete =
      { p with driver := { p.driver with txCompleted := p.driver.txCompleted + 1, irq := irqOf true rx } } := by
    rw [← hraised]
    rfl
  have hfetched : fetched (os ++ (playback α).obs p .txComplete) = fetched os := by
    rw [fetched_append]
    exact List.append_nil _
  have hprogram : program pages first (os ++ (playback α).obs p .txComplete) = program pages first os := by
    rw [program, hfetched, program]
  have hpending : ((playback α).next p .txComplete).driver.txPending = true := by
    rw [hnext]
    exact txPending_irqOf rfl
  constructor
  case irq => exact ⟨rx, by rw [hpending, hnext]⟩
  case queue =>
    rw [hfetched, hnext]
    exact h.queue
  case last =>
    rw [hprogram, hfetched, hnext]
    exact h.last
  case previous =>
    rw [hprogram, hfetched, hnext]
    exact h.previous
  case played =>
    rw [hprogram, played_append, h.played, hobs, hnext, List.take_add_one, h.playing htime]
    rfl
  case count =>
    rw [hfetched, hpending, hnext]
    change (p.driver.txCompleted + 1 < 2 ∧ _ ∧ (_ → p.driver.txCompleted + 1 = 1)) ∨
      2 ≤ p.driver.txCompleted + 1 ∧ _ = p.driver.txCompleted + 1
    rw [Bool.toNat_true]
    obtain ⟨hlt, hzero, -⟩ | ⟨hle, hcount⟩ := h.count
    · omega
    · rw [htime hle, Bool.toNat_false] at hcount
      omega

/-- Nothing about playing changes without a pending interrupt that is for the other descriptor. -/
theorem Track.unfilled (h : Track pages first os p) {d : State} (hirq : d.irq = irqOf tx rx)
    (hqueue : d.txQueue = p.driver.txQueue) (hcompleted : d.txCompleted = p.driver.txCompleted)
    (htx : tx = true → p.driver.txPending = true)
    (hcount : 2 ≤ p.driver.txCompleted → tx = p.driver.txPending) :
    Track pages first os { p with driver := d } where
  irq := ⟨rx, by rw [txPending_irqOf hirq, hirq]⟩
  queue := hqueue.trans h.queue
  last := h.last
  previous := h.previous
  played := hcompleted ▸ h.played
  count := by
    change (d.txCompleted < 2 ∧ _) ∨ 2 ≤ d.txCompleted ∧ _ = d.txCompleted
    rw [txPending_irqOf hirq, hcompleted]
    obtain ⟨hlt, hzero, hone⟩ | ⟨hle, hsum⟩ := h.count
    · exact .inl ⟨hlt, hzero, fun ht => hone (htx ht)⟩
    · exact .inr ⟨hle, by rw [hcount hle, hsum]⟩

/-- The next packet goes to the descriptor that was played before. -/
theorem Track.filled (h : Track pages first os p) {d : State} (playing : Nat) (hle : 2 ≤ p.driver.txCompleted)
    (hpending : p.driver.txPending = true) (hirq : d.irq = irqOf false rx)
    (hqueue : d.txQueue = [(fetched os).length % TX, ((fetched os).length + 1) % TX])
    (hcompleted : d.txCompleted = p.driver.txCompleted) :
    Track pages first (os ++ [.filled (((fetched os).length + 1) % TX) playing packet])
      { p.fill (((fetched os).length + 1) % TX) packet with driver := d } := by
  have hfetched : fetched (os ++ [.filled (((fetched os).length + 1) % TX) playing packet]) =
      fetched os ++ [packet] := by
    rw [fetched_append]
    rfl
  have hplayed : Audio.played (os ++ [.filled (((fetched os).length + 1) % TX) playing packet]) =
      Audio.played os := by
    rw [played_append]
    exact List.append_nil _
  have hprogram : program pages first (os ++ [.filled (((fetched os).length + 1) % TX) playing packet]) =
      program pages first os ++ [packet] := by
    rw [program, hfetched, program]
    rfl
  have hsum : (fetched os).length + 2 = p.driver.txCompleted := by
    obtain ⟨hlt, -⟩ | ⟨-, hsum⟩ := h.count
    · omega
    · rw [hpending, Bool.toNat_true] at hsum
      omega
  have hlen : (fetched (os ++ [.filled (((fetched os).length + 1) % TX) playing packet])).length =
      (fetched os).length + 1 := by
    rw [hfetched, List.length_append, List.length_singleton]
  have hother : ((fetched os).length + 1 + 1) % TX = (fetched os).length % TX := by
    unfold TX
    omega
  constructor
  case irq => exact ⟨rx, by rw [txPending_irqOf hirq, hirq]⟩
  case queue =>
    rw [hlen, hother]
    exact hqueue
  case last =>
    rw [hlen, hprogram, List.getElem?_append_right (Nat.le_of_eq (length_program ..))]
    simp [Player.fill, length_program]
  case previous =>
    have hne : (fetched os).length % TX ≠ ((fetched os).length + 1) % TX := by
      unfold TX
      omega
    rw [hlen, hprogram, hother, List.getElem?_append_left (by rw [length_program]; omega), h.last]
    simp [Player.fill, hne]
  case played =>
    change _ = List.take d.txCompleted _
    rw [hplayed, hprogram, hcompleted, h.played, List.take_append_of_le_length (by rw [length_program]; omega)]
  case count =>
    refine .inr ?_
    change 2 ≤ d.txCompleted ∧ _ + 1 + d.txPending.toNat = d.txCompleted
    rw [hlen, txPending_irqOf hirq, Bool.toNat_false, hcompleted]
    omega

/-- The transmitting half fills the head of the queue if the engine is not at it. -/
theorem handleTx_eq {tx rx : Bool} {descr : Nat} {queue : List Nat} (hirq : p.driver.irq = irqOf tx rx)
    (hqueue : p.driver.txQueue = descr :: queue) (packet : Option α) : p.handleTx packet =
      if tx = true ∧ descr ≠ p.driver.txCompleted % TX then
        ({ p.fill descr packet with driver :=
          { p.driver with irq := irqOf false rx, txQueue := queue ++ [descr] } },
          [.filled descr (p.driver.txCompleted % TX) packet])
      else ({ p with driver := { p.driver with irq := irqOf false rx } }, []) := by
  obtain ⟨⟨irq, completed, rxCompleted, rxSeen, txQueue, rxQueue⟩, data⟩ := p
  dsimp only at hirq hqueue
  subst hirq hqueue
  unfold Player.handleTx
  rw [irqPending_tx]
  cases tx with
  | false => rfl
  | true =>
    by_cases hne : descr = completed % TX
    · simp [hne]
    · simp [hne, Player.tx, State.tx, Player.fill]

theorem Track.handleDmaIrq (h : Track pages first os p) (packet : Option α) :
    Track pages first (os ++ (p.handleDmaIrq packet).2) (p.handleDmaIrq packet).1 := by
  obtain ⟨rx, hirq⟩ := h.irq
  rw [Player.handleDmaIrq, handleTx_eq hirq h.queue]
  by_cases hfill : p.driver.txPending = true ∧ ((fetched os).length + 1) % TX ≠ p.driver.txCompleted % TX
  · rw [if_pos hfill]
    obtain ⟨hpending, hne⟩ := hfill
    obtain ⟨hlt, hzero, hone⟩ | ⟨hle, hsum⟩ := h.count
    · -- the first interrupt comes while the engine is at the second descriptor
      rw [hzero, hone hpending] at hne
      exact absurd rfl hne
    · have hrx := handleRx_tx (s := { p.driver with
        irq := irqOf false rx, txQueue := [(fetched os).length % TX, ((fetched os).length + 1) % TX] }) rfl
      exact h.filled _ hle hpending hrx.1 hrx.2.1 hrx.2.2
  · rw [if_neg hfill]
    have hrx := handleRx_tx (s := { p.driver with irq := irqOf false rx }) rfl
    change Track pages first (os ++ []) { p with driver := State.handleRx { p.driver with irq := irqOf false rx } |>.1 }
    rw [List.append_nil]
    refine h.unfilled hrx.1 hrx.2.1 hrx.2.2 (fun hno => by cases hno) fun hle => ?_
    cases hp : p.driver.txPending with
    | false => rfl
    | true =>
      obtain ⟨hlt, -⟩ | ⟨-, hsum⟩ := h.count
      · omega
      · rw [hp, Bool.toNat_true] at hsum
        refine absurd ⟨hp, ?_⟩ hfill
        unfold TX
        omega

theorem Track.next (h : Track pages first os p) (htime : InTime p e) :
    Track pages first (os ++ (playback α).obs p e) ((playback α).next p e) := by
  cases e with
  | txComplete => exact h.txComplete htime
  | rxComplete =>
    obtain ⟨rx, hirq⟩ := h.irq
    have hraised : (audio.next p.driver .rxComplete).irq = irqOf p.driver.txPending true := by
      change raise p.driver.irq rxChannel = _
      rw [hirq, raise_rx]
    change Track pages first (os ++ []) { p with driver := audio.next p.driver .rxComplete }
    rw [List.append_nil]
    exact h.unfilled hraised rfl rfl id fun _ => rfl
  | handleDmaIrq packet => exact h.handleDmaIrq packet

/-- The handler asks what the engine is at before it fills a descriptor. -/
theorem safe_next (hqueue : p.driver.txQueue ≠ []) (e : PlayEvent α) :
    (∀ o ∈ (playback α).obs p e, o.Safe) ∧ ((playback α).next p e).driver.txQueue ≠ [] := by
  cases e with
  | txComplete =>
    refine ⟨fun o ho => ?_, hqueue⟩
    obtain rfl := List.mem_singleton.mp ho
    trivial
  | rxComplete => exact ⟨fun o ho => absurd ho List.not_mem_nil, hqueue⟩
  | handleDmaIrq packet =>
    have hrx : ∀ s : State, s.handleRx.1.txQueue = s.txQueue := fun s => by
      unfold State.handleRx State.rx
      dsimp only
      split
      · split <;> rfl
      · rfl
    change (∀ o ∈ (p.handleTx packet).2, o.Safe) ∧ (p.handleTx packet).1.driver.handleRx.1.txQueue ≠ []
    obtain ⟨descr, queue, hcons⟩ := List.exists_cons_of_ne_nil hqueue
    rw [hrx]
    unfold Player.handleTx Player.tx State.tx
    dsimp only
    rw [hcons, List.head?_cons, Option.any_some]
    split
    · rename_i hfill
      rw [Bool.and_eq_true, decide_eq_true_eq] at hfill
      refine ⟨fun o ho => ?_, List.append_ne_nil_of_right_ne_nil _ (List.cons_ne_nil _ _)⟩
      obtain rfl := List.mem_singleton.mp ho
      exact hfill.2
    · exact ⟨fun o ho => absurd ho List.not_mem_nil, List.cons_ne_nil _ _⟩

/-- No descriptor is filled while the engine is at it. In time, the engine plays the first packet, what
the other descriptor held, the first packet once more and then every packet fetched, each of them once
and in order. At most two packets are fetched ahead. -/
theorem playback_in_order (pages : Nat → Option α) (first : Option α) (es : List (PlayEvent α)) :
    let os := (playback α).log (Player.init pages first) es
    (∀ o ∈ os, o.Safe) ∧ ((playback α).Along InTime (Player.init pages first) es →
      played os <+: first :: pages 1 :: first :: fetched os ∧
        (fetched os).length ≤ (played os).length ∧ (played os).length ≤ (fetched os).length + 2) := by
  refine ⟨?_, fun htime => ?_⟩
  · refine System.log_forall (I := fun p => p.driver.txQueue ≠ []) (C := fun _ _ => True)
      (fun _ e hqueue _ => (safe_next hqueue e).2) (fun _ e hqueue _ => (safe_next hqueue e).1) ?_
      (System.along_of_forall fun _ _ => trivial)
    exact List.cons_ne_nil _ _
  have htrack := System.log_invariant (fun _ _ _ h ht => Track.next h ht) track_init htime
  rw [List.nil_append] at htrack
  generalize (playback α).log (Player.init pages first) es = os at htrack ⊢
  generalize (playback α).run (Player.init pages first) es = p at htrack
  have hcount : (fetched os).length ≤ p.driver.txCompleted ∧ p.driver.txCompleted ≤ (fetched os).length + 2 := by
    have := p.driver.txPending.toNat_le
    obtain ⟨hlt, hzero, hone⟩ | ⟨hle, hsum⟩ := htrack.count <;> omega
  have hlen : (played os).length = p.driver.txCompleted := by
    rw [htrack.played, List.length_take, length_program]
    omega
  rw [hlen]
  exact ⟨htrack.played ▸ List.take_prefix .., hcount⟩

/-- Packets of a session that are handled in time. -/
theorem four_played :
    let es := [.txComplete, .handleDmaIrq none, .txComplete, .handleDmaIrq (some 1), .txComplete,
      .handleDmaIrq (some 2), .txComplete]
    let os := (playback Nat).log (Player.init (fun _ => none) (some 0)) es
    played os <+: some 0 :: none :: some 0 :: fetched os :=
  ((playback_in_order (fun _ => none) (some 0) _).2 (by decide)).1

/-- A handler that is late for a packet has the packet before played again. -/
example :
    let es := [.txComplete, .txComplete, .handleDmaIrq (some 1), .txComplete, .txComplete,
      .handleDmaIrq (some 2), .txComplete]
    played ((playback Nat).log (Player.init (fun _ => none) (some 0)) es) =
      [some 0, none, some 0, some 1, some 0] := by
  decide

end Laws

end Allwinner.Audio
