import Allwinner.Library.Runs

/-!
# Recording and playing

The DMA engine works off two cyclic descriptors for each direction, and raises an
interrupt after each packet. For playing, the handler checks what the engine is at. For
recording it hands on the next descriptor in its queue whenever an interrupt is pending,
however many packets that stands for.
-/

namespace Allwinner.Audio

open Library (System)

-- ---------------------------------------------------------------------------
-- The DMA engine
-- ---------------------------------------------------------------------------

abbrev TX : Nat := 2
abbrev RX : Nat := 2

/-- The channels of the DMA engine. -/
abbrev txChannel : Nat := 0
abbrev rxChannel : Nat := 1

/-- `Irq_type`. -/
abbrev FULL_PACKET : BitVec 32 := 2

/-- `irq_pending`: whether an interrupt of the type is pending, and the register after the
channel's were cleared. -/
def irqPending (irq : BitVec 32) (channel : Nat) (type : BitVec 32) : Bool × BitVec 32 :=
  let pending := (irq >>> (4 * channel)) &&& 7
  if pending &&& type = 0 then (false, irq)
  -- writing ones clears
  else (true, irq &&& ~~~(pending <<< (4 * channel)))

/-- The interrupt the engine raises after a packet. -/
def raise (irq : BitVec 32) (channel : Nat) : BitVec 32 := irq ||| FULL_PACKET <<< (4 * channel)

-- ---------------------------------------------------------------------------
-- The driver
-- ---------------------------------------------------------------------------

/-- Descriptors are known by their number. -/
structure State where
  /-- `Irq_pending` -/
  irq : BitVec 32 := 0
  /-- the packets the engine has finished -/
  txCompleted : Nat := 0
  rxCompleted : Nat := 0
  /-- those it had finished when the driver last saw an interrupt for recording -/
  rxSeen : Nat := 0
  txQueue : List Nat := []
  rxQueue : List Nat := []

inductive Event where
  | txComplete
  | rxComplete
  | handleDmaIrq
  deriving DecidableEq, Repr

/-- A descriptor passed to `record_packet`, once the engine has finished `completed`
packets. -/
structure Recorded where
  descr : Nat
  completed : Nat
  deriving DecidableEq, Repr

namespace State

/-- `tx`, without the samples. -/
def tx (s : State) : State :=
  match s.txQueue with
  -- "Store in reverse so that the last descr is used first"
  | [] => { s with txQueue := (List.range TX).reverse }
  | descr :: queue => { s with txQueue := queue ++ [descr] }

/-- `rx`. -/
def rx (s : State) : State × List Recorded :=
  match s.rxQueue with
  | [] => (s, [])
  | descr :: queue => ({ s with rxQueue := queue ++ [descr] }, [⟨descr, s.rxCompleted⟩])

/-- The transmitting half of `handle_dma_irq`. -/
def handleTx (s : State) : State :=
  let (pending, irq) := irqPending s.irq txChannel FULL_PACKET
  let s := { s with irq }
  -- "cover any spurious interrupt that might occur"
  if pending && s.txQueue.head?.any (· ≠ s.txCompleted % TX) then s.tx else s

/-- The receiving half. -/
def handleRx (s : State) : State × List Recorded :=
  let (pending, irq) := irqPending s.irq rxChannel FULL_PACKET
  let s := { s with irq }
  if pending then { s with rxSeen := s.rxCompleted }.rx else (s, [])

/-- `handle_dma_irq`. -/
def handleDmaIrq (s : State) : State × List Recorded := s.handleTx.handleRx

/-- The constructor of `Main`. -/
def init : State := State.tx { rxQueue := List.range RX }

end State

/-- The engine and the driver. The engine goes through its descriptors in turn. -/
def audio : System State Event Recorded where
  step s
    | .txComplete => ({ s with txCompleted := s.txCompleted + 1, irq := raise s.irq txChannel }, [])
    | .rxComplete => ({ s with rxCompleted := s.rxCompleted + 1, irq := raise s.irq rxChannel }, [])
    | .handleDmaIrq => s.handleDmaIrq

-- ---------------------------------------------------------------------------
-- What recording should do
-- ---------------------------------------------------------------------------

/-- The engine has filled the descriptor, and is not about to do so again. -/
def Recorded.Complete (r : Recorded) : Prop := r.descr < r.completed ∧ r.descr ≠ r.completed % RX

def State.rxPending (s : State) : Bool := (irqPending s.irq rxChannel FULL_PACKET).1

/-- With no interrupt pending, the next descriptor in the queue is the one being filled. -/
def State.InStep (s : State) : Prop := s.rxPending = false → s.rxQueue.head? = some (s.rxCompleted % RX)

/-- A step records only complete packets, and leaves the driver in step. -/
def RecordsComplete (s : State) (e : Event) : Prop :=
  (∀ r ∈ audio.obs s e, r.Complete) ∧ (audio.next s e).InStep

/-- A handler that sees an interrupt sees an odd number of packets. -/
def Timely (s : State) (e : Event) : Prop :=
  e = .handleDmaIrq → s.rxPending = true → (s.rxCompleted - s.rxSeen) % 2 = 1

instance (s : State) (e : Event) : Decidable (Timely s e) := inferInstanceAs (Decidable (_ → _ → _))

-- ---------------------------------------------------------------------------
-- The interrupts
-- ---------------------------------------------------------------------------

/-- The register with the interrupts of both channels. -/
def irqOf (tx rx : Bool) : BitVec 32 := (if tx then 0x2 else 0) ||| (if rx then 0x20 else 0)

theorem irqPending_tx : ∀ tx rx, irqPending (irqOf tx rx) txChannel FULL_PACKET = (tx, irqOf false rx) := by
  decide

theorem irqPending_rx : ∀ tx rx, irqPending (irqOf tx rx) rxChannel FULL_PACKET = (rx, irqOf tx false) := by
  decide

theorem raise_tx : ∀ tx rx, raise (irqOf tx rx) txChannel = irqOf true rx := by decide

theorem raise_rx : ∀ tx rx, raise (irqOf tx rx) rxChannel = irqOf tx true := by decide

/-- The queue was in step when the driver last saw an interrupt, and one is pending for
what the engine finished since. -/
structure Phase (s : State) : Prop where
  seen : s.rxSeen ≤ s.rxCompleted
  irq : ∃ tx, s.irq = irqOf tx (decide (s.rxSeen < s.rxCompleted))
  queue : s.rxQueue = [s.rxSeen % RX, (s.rxSeen + 1) % RX]

section Laws

variable {s : State} {e : Event}

theorem phase_init : Phase State.init := ⟨Nat.le_refl 0, ⟨false, rfl⟩, rfl⟩

theorem Phase.rxPending (h : Phase s) : s.rxPending = decide (s.rxSeen < s.rxCompleted) := by
  obtain ⟨tx, hirq⟩ := h.irq
  rw [State.rxPending, hirq, irqPending_rx]

theorem Phase.inStep (h : Phase s) : s.InStep := by
  intro hpending
  rw [h.rxPending, decide_eq_false_iff_not] at hpending
  have hseen : s.rxSeen = s.rxCompleted := Nat.le_antisymm h.seen (Nat.le_of_not_lt hpending)
  rw [h.queue, hseen]
  rfl

theorem tx_rx (s : State) : s.tx.irq = s.irq ∧ s.tx.rxCompleted = s.rxCompleted ∧ s.tx.rxSeen = s.rxSeen ∧
    s.tx.rxQueue = s.rxQueue := by
  unfold State.tx
  split <;> exact ⟨rfl, rfl, rfl, rfl⟩

/-- The transmitting half leaves recording alone. -/
theorem Phase.handleTx (h : Phase s) :
    Phase s.handleTx ∧ s.handleTx.rxCompleted = s.rxCompleted ∧ s.handleTx.rxSeen = s.rxSeen := by
  obtain ⟨tx, hirq⟩ := h.irq
  unfold State.handleTx
  rw [hirq, irqPending_tx]
  dsimp only
  split
  · obtain ⟨htxIrq, hcompleted, hseen, hqueue⟩ := tx_rx { s with irq := irqOf false (decide (s.rxSeen < s.rxCompleted)) }
    refine ⟨⟨?_, ⟨false, ?_⟩, ?_⟩, hcompleted, hseen⟩
    · rw [hseen, hcompleted]
      exact h.seen
    · rw [htxIrq, hseen, hcompleted]
    · rw [hqueue, hseen]
      exact h.queue
  · exact ⟨⟨h.seen, ⟨false, rfl⟩, h.queue⟩, rfl, rfl⟩

/-- The receiving half hands on the descriptor that was in step with the last interrupt. -/
theorem Phase.handleRx (h : Phase s) :
    (s.rxSeen = s.rxCompleted ∧ s.handleRx.2 = [] ∧ Phase s.handleRx.1) ∨
    (s.rxSeen < s.rxCompleted ∧ s.handleRx.2 = [⟨s.rxSeen % RX, s.rxCompleted⟩] ∧ ∃ tx,
      s.handleRx.1 = { s with
        irq := irqOf tx false, rxSeen := s.rxCompleted, rxQueue := [(s.rxSeen + 1) % RX, s.rxSeen % RX] }) := by
  obtain ⟨tx, hirq⟩ := h.irq
  unfold State.handleRx State.rx
  rw [hirq, irqPending_rx]
  dsimp only
  cases hlt : decide (s.rxSeen < s.rxCompleted) with
  | false =>
    have hseen : s.rxSeen = s.rxCompleted := Nat.le_antisymm h.seen (by simpa using hlt)
    refine .inl ⟨hseen, rfl, h.seen, ⟨tx, ?_⟩, h.queue⟩
    simp [hseen]
  | true =>
    simp only [if_true, h.queue]
    exact .inr ⟨of_decide_eq_true hlt, trivial, tx, rfl⟩

theorem Phase.txComplete (h : Phase s) : Phase (audio.next s .txComplete) := by
  obtain ⟨tx, hirq⟩ := h.irq
  refine ⟨h.seen, ⟨true, ?_⟩, h.queue⟩
  change raise s.irq txChannel = _
  rw [hirq, raise_tx]
  rfl

theorem Phase.rxComplete (h : Phase s) : Phase (audio.next s .rxComplete) := by
  obtain ⟨tx, hirq⟩ := h.irq
  have hlt : decide (s.rxSeen < s.rxCompleted + 1) = true := decide_eq_true (Nat.lt_succ_of_le h.seen)
  refine ⟨Nat.le_succ_of_le h.seen, ⟨tx, ?_⟩, h.queue⟩
  change raise s.irq rxChannel = irqOf tx (decide (s.rxSeen < s.rxCompleted + 1))
  rw [hirq, raise_rx, hlt]

theorem timely_handle (h : Phase s) :
    Timely s .handleDmaIrq ↔ (s.rxSeen < s.rxCompleted → (s.rxCompleted - s.rxSeen) % 2 = 1) := by
  simp [Timely, h.rxPending]

/-- An invocation keeps the phase, and records a complete packet, if it sees an odd number of
packets. -/
theorem handle_iff (h : Phase s) :
    (RecordsComplete s .handleDmaIrq ↔ Timely s .handleDmaIrq) ∧
      (Timely s .handleDmaIrq → Phase (audio.next s .handleDmaIrq)) := by
  obtain ⟨hphase, hcompleted, hseen⟩ := h.handleTx
  have hobs : audio.obs s .handleDmaIrq = s.handleTx.handleRx.2 := rfl
  have hnext : audio.next s .handleDmaIrq = s.handleTx.handleRx.1 := rfl
  rw [timely_handle h, RecordsComplete, hobs, hnext, ← hcompleted, ← hseen]
  rcases hphase.handleRx with ⟨hnone, hempty, hphase'⟩ | ⟨hsome, hrecord, tx, hstate⟩
  · refine ⟨⟨fun _ hlt => absurd hlt (by omega), fun _ => ⟨?_, hphase'.inStep⟩⟩, fun _ => hphase'⟩
    rw [hempty]
    simp
  · rw [hrecord, hstate]
    refine ⟨⟨fun ⟨hcomplete, _⟩ _ => ?_, fun hodd => ⟨?_, fun _ => ?_⟩⟩, fun hodd => ⟨Nat.le_refl _, ⟨tx, ?_⟩, ?_⟩⟩
    · have hne := (hcomplete _ (List.mem_singleton.mpr rfl)).2
      simp only [RX] at hne
      omega
    · have hodd := hodd hsome
      intro r hr
      obtain rfl := List.mem_singleton.mp hr
      refine ⟨?_, ?_⟩ <;> simp only [RX] <;> omega
    · have hodd := hodd hsome
      simp only [List.head?_cons, Option.some.injEq, RX]
      omega
    · simp
    · have hodd := hodd hsome
      simp only [List.cons.injEq, RX, and_true]
      omega

theorem recordsComplete_iff (h : Phase s) : RecordsComplete s e ↔ Timely s e := by
  cases e with
  | txComplete => exact iff_of_true ⟨by rintro r ⟨⟩, h.txComplete.inStep⟩ (by rintro ⟨⟩)
  | rxComplete => exact iff_of_true ⟨by rintro r ⟨⟩, h.rxComplete.inStep⟩ (by rintro ⟨⟩)
  | handleDmaIrq => exact (handle_iff h).1

theorem Phase.next (h : Phase s) (htimely : Timely s e) : Phase (audio.next s e) := by
  cases e with
  | txComplete => exact h.txComplete
  | rxComplete => exact h.rxComplete
  | handleDmaIrq => exact (handle_iff h).2 htimely

/-- A run records complete packets only, and stays in step, if each of its interrupts is for an
odd number of packets. -/
theorem audio_recordsComplete_iff (es : List Event) :
    audio.Along RecordsComplete State.init es ↔ audio.Along Timely State.init es :=
  System.along_congr (fun _ _ h => recordsComplete_iff h)
    (fun _ _ h hcomplete => h.next ((recordsComplete_iff h).mp hcomplete)) phase_init

end Laws

/-- Two packets in one interrupt: the first descriptor is handed on while it is filled anew,
and the next while that is. -/
theorem merged_interrupt :
    audio.log State.init [.rxComplete, .rxComplete, .handleDmaIrq, .rxComplete, .handleDmaIrq] =
      [⟨0, 2⟩, ⟨1, 3⟩] ∧
    ¬ (⟨0, 2⟩ : Recorded).Complete ∧ ¬ (⟨1, 3⟩ : Recorded).Complete ∧
    ¬ audio.Along RecordsComplete State.init [.rxComplete, .rxComplete, .handleDmaIrq] := by
  refine ⟨by decide, fun h => h.2 rfl, fun h => h.2 rfl, fun h => ?_⟩
  have hrecord := h.2.2.1.1 ⟨0, 2⟩ (by decide)
  exact hrecord.2 rfl

end Allwinner.Audio
