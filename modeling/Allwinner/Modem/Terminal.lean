import Allwinner.Modem.Submissions

/-!
# The terminal

`send_command_to_modem` appends carriage return and newline in another
`String<256>`. A command that leaves no room for both loses them, and a ring
command is cut before that; the length the warning tests for is never reached.
-/

namespace Allwinner.Modem

/-- Carriage return and newline. -/
def commandEol : Text := ['\r', '\n']

/-- `Command::capacity`, the terminating null byte included. -/
def Command.capacity : Nat := 256

/-- What `send_command_to_modem` hands to the terminal, and the warnings it prints. -/
structure Written where
  text : Text
  /-- "modem command got unexpectedly truncated" -/
  truncated : Bool
  /-- "modem command too large for terminal write" -/
  tooLarge : Bool
  deriving DecidableEq

/-- `Terminal_modem::send_command_to_modem`; `write` is how many characters the
terminal takes. -/
def sendCommandToModem (write : Text → Nat) (command : Command) : Written :=
  let commandWithEol := Command.ofText (command.chars ++ commandEol)
  let len := commandWithEol.chars.length
  { text := commandWithEol.chars
    truncated := len = Command.capacity
    tooLarge := write commandWithEol.chars ≠ len }

/-- The complete command is written with its terminator, or the truncation is noticed. -/
def Written.Terminated (w : Written) (complete : Text) : Prop :=
  w.text = complete ++ commandEol ∨ w.truncated = true

/-- The text fits into a command together with the terminator and the null byte. -/
def FitsCommand (t : Text) : Prop := '\x00' ∉ t ∧ t.length + 2 < Command.capacity

instance : DecidablePred FitsCommand := fun t =>
  inferInstanceAs (Decidable ('\x00' ∉ t ∧ t.length + 2 < Command.capacity))

-- ---------------------------------------------------------------------------
-- One command
-- ---------------------------------------------------------------------------

/-- A string is at least one character shorter than its capacity, so the warning is never issued. -/
theorem truncated_sendCommandToModem (write : Text → Nat) (command : Command) :
    (sendCommandToModem write command).truncated = false := by
  have h := (Command.ofText (command.chars ++ commandEol)).fits
  have hne : (Command.ofText (command.chars ++ commandEol)).chars.length ≠ Command.capacity := by
    simp only [Command.capacity]
    omega
  simp [sendCommandToModem, hne]

theorem text_sendCommandToModem (h : FitsCommand t) (write : Text → Nat) :
    (sendCommandToModem write (Command.ofText t)).text = t ++ commandEol := by
  obtain ⟨hnul, hlen⟩ := h
  simp only [Command.capacity] at hlen
  have ht : (Command.ofText t).chars = t := Str.chars_ofText hnul (by omega)
  have heol : '\x00' ∉ commandEol := by decide
  simp only [sendCommandToModem, ht]
  refine Str.chars_ofText ?_ ?_
  · simp [hnul, heol]
  · simp only [List.length_append, commandEol, List.length_cons, List.length_nil]
    omega

/-- A command is terminated exactly if its text fits; no other is noticed. -/
theorem terminated_iff (write : Text → Nat) (t : Text) :
    (sendCommandToModem write (Command.ofText t)).Terminated t ↔ FitsCommand t := by
  constructor
  · rintro (htext | hwarned)
    · have hfits := (Command.ofText ((Command.ofText t).chars ++ commandEol)).fits
      have hnul := (Command.ofText ((Command.ofText t).chars ++ commandEol)).noNul
      rw [show (Command.ofText ((Command.ofText t).chars ++ commandEol)).chars = t ++ commandEol
        from htext] at hfits hnul
      simp only [List.length_append, commandEol, List.length_cons, List.length_nil] at hfits
      refine ⟨fun h => hnul (List.mem_append_left _ h), ?_⟩
      simp only [Command.capacity]
      omega
    · rw [truncated_sendCommandToModem] at hwarned
      cases hwarned
  · exact fun h => .inl (text_sendCommandToModem h write)

-- ---------------------------------------------------------------------------
-- The commands of Control
-- ---------------------------------------------------------------------------

/-- The text an operation's command is constructed from. -/
def Request.text : Request k → Text
  | .checkReady => atCheckReady
  | .disableEcho => "ATE0".toList
  | .powerDown => atPowerDown
  | .ring command => command.chars
  | .setPin pin => "AT+CPIN=".toList ++ pin.chars
  | .requestPinState => "AT+CPIN?".toList
  | .requestPinCount => "AT+QPINC?".toList
  | .reboot => "AT+CFUN=1,1".toList
  | .queryQcfg name => atQcfgPrefix ++ "\"".toList ++ name.chars ++ "\"".toList
  | .assignQcfg name value =>
    atQcfgPrefix ++ "\"".toList ++ name.chars ++ "\",".toList ++ value.chars
  | .hangUp => atHangUp
  | .requestCallList => atRequestCallList
  | .initiateCall number => "ATD".toList ++ number.chars ++ ";".toList
  | .acceptCall => atAcceptCall

theorem Request.command_eq_ofText (r : Request k) : r.command = Command.ofText r.text := by
  cases r with
  | ring command => exact Str.ext' (Str.chars_ofText command.noNul command.fits).symm
  | _ => rfl

/-- A text of at most `n` characters, none of them the null byte. -/
structure Within (n : Nat) (t : Text) : Prop where
  noNul : '\x00' ∉ t
  length_le : t.length ≤ n

theorem Within.append (ht : Within n t) (hu : Within m u) : Within (n + m) (t ++ u) where
  noNul h := (List.mem_append.mp h).elim ht.noNul hu.noNul
  length_le := by
    rw [List.length_append]
    exact Nat.add_le_add ht.length_le hu.length_le

theorem Str.within (s : Str N) : Within (N - 1) s.chars := ⟨s.noNul, s.fits⟩

theorem Within.fitsCommand (h : Within n t) (hn : n + 2 < Command.capacity) : FitsCommand t :=
  ⟨h.noNul, Nat.lt_of_le_of_lt (Nat.add_le_add_right h.length_le 2) hn⟩

/-- Apart from the user's commands, all have room for the terminator. -/
theorem Request.fits (r : Request k) (hk : k ≠ .ring) : FitsCommand r.text := by
  have hassign : Within 8 atQcfgPrefix := ⟨by decide, by decide⟩
  have hquote : Within 1 "\"".toList := ⟨by decide, by decide⟩
  cases r with
  | ring => exact absurd rfl hk
  | setPin pin =>
    have hset : Within 8 "AT+CPIN=".toList := ⟨by decide, by decide⟩
    exact (hset.append pin.within).fitsCommand (by decide)
  | queryQcfg name =>
    exact (((hassign.append hquote).append name.within).append hquote).fitsCommand (by decide)
  | assignQcfg name value =>
    have hcomma : Within 2 "\",".toList := ⟨by decide, by decide⟩
    exact ((((hassign.append hquote).append name.within).append hcomma).append
      value.within).fitsCommand (by decide)
  | initiateCall number =>
    have hdial : Within 3 "ATD".toList := ⟨by decide, by decide⟩
    have hend : Within 1 ";".toList := ⟨by decide, by decide⟩
    exact ((hdial.append number.within).append hend).fitsCommand (by decide)
  | _ => decide

namespace Driver

open Library (System)

/-- The complete text of a submitted command: of a ring command it is that of a `<ring>` node
the driver was configured with. -/
def CompleteText (es : List Event) (s : Control.Submission) (t : Text) : Prop :=
  if s.kind = .ring then
    s.command = Command.ofText t ∧
      ∃ config responses, .apply config responses ∈ es ∧ config.ring = some t
  else t = s.request.text

variable {scan : Scanner} {maxLineLen : Nat}

theorem CompleteText.command (h : CompleteText es s t) : s.command = Command.ofText t := by
  unfold CompleteText at h
  split_ifs at h with hk
  · exact h.1
  · rw [h]
    exact s.request.command_eq_ofText

/-- Every command submitted in a run has a complete text. -/
theorem exists_completeText (settings : List (Qcfg.Name × Qcfg.Value)) (es : List Event)
    (hs : .submitted config st s ∈ (system scan maxLineLen).log (init maxLineLen settings) es) :
    ∃ t, CompleteText es s t := by
  let FromNode : Command → Prop := fun c =>
    ∃ t, c = Command.ofText t ∧ ∃ config responses, .apply config responses ∈ es ∧ config.ring = some t
  have hring : ∀ e ∈ es, RingText FromNode e := by
    intro e he
    cases e with
    | apply config responses => exact fun t ht => ⟨t, rfl, config, responses, he, ht⟩
    | _ => trivial
  have hrun : (system scan maxLineLen).Along (fun _ e => True ∧ RingText FromNode e)
      (init maxLineLen settings) es :=
    System.Along.and_forall (System.along_of_forall fun _ _ => trivial) hring
  have hall := submitted_forall (I := RingHolds FromNode)
    (Q := fun _ _ s => s.kind = .ring → FromNode s.command)
    (fun d e hd he => hd.next e he.2)
    (fun d config responses s hd he hs hk => ring_submitted hd he.2 hs hk)
    (ringHolds_init _ settings) hrun
  by_cases hk : s.kind = .ring
  · obtain ⟨t, hc, hnode⟩ := hall config st s hs hk
    exact ⟨t, by rw [CompleteText, if_pos hk]; exact ⟨hc, hnode⟩⟩
  · exact ⟨s.request.text, by rw [CompleteText, if_neg hk]⟩

/-- Every command that a run submits has a complete text, which is written with its terminator
exactly if it fits. All but the ring commands do. -/
theorem commands_terminated_iff (scan : Scanner) (maxLineLen : Nat) (write : Text → Nat)
    (settings : List (Qcfg.Name × Qcfg.Value)) (es : List Event) (config : Config) (st : Status)
    (s : Control.Submission)
    (hs : .submitted config st s ∈ (system scan maxLineLen).log (init maxLineLen settings) es) :
    (∃ t, CompleteText es s t) ∧
    ∀ t, CompleteText es s t →
      ((sendCommandToModem write s.command).Terminated t ↔ FitsCommand t) ∧
      (s.kind ≠ .ring → FitsCommand t) := by
  refine ⟨exists_completeText settings es hs, fun t ht => ⟨?_, fun hk => ?_⟩⟩
  · rw [ht.command]
    exact terminated_iff write t
  · rw [CompleteText, if_neg hk] at ht
    rw [ht]
    exact s.request.fits hk

/-- The phone rings. -/
def rung (ring : Text) : List Event :=
  startup ++ [answer lineOk, answer lineRing { ring := some ring }]

def submitsCommand (t : Text) (_ : Config) (_ : Status) (s : Control.Submission) : Bool :=
  s.kind = .ring ∧ s.command = Command.ofText t

/-- A ring command of the given text that was submitted. -/
theorem exists_ring_submitted
    (h : ((system plainScanner 64).log (init 64 []) (rung t)).any
      (Obs.submits (submitsCommand t)) = true) :
    ∃ config st s, .submitted config st s ∈ (system plainScanner 64).log (init 64 []) (rung t) ∧
      CompleteText (rung t) s t := by
  obtain ⟨config, st, s, hs, hp⟩ := Obs.exists_submitted h
  obtain ⟨hk, hc⟩ : s.kind = .ring ∧ s.command = Command.ofText t := by
    simpa [submitsCommand] using hp
  refine ⟨config, st, s, hs, ?_⟩
  rw [CompleteText, if_pos hk]
  exact ⟨hc, { ring := some t }, [lineRing ++ "\r\n".toList], by simp [rung, answer], rfl⟩

theorem ring_terminated : ∃ config st s,
    .submitted config st s ∈
        (system plainScanner 64).log (init 64 []) (rung "AT+CSQ".toList) ∧
      (sendCommandToModem List.length s.command).Terminated "AT+CSQ".toList := by
  obtain ⟨config, st, s, hs, ht⟩ := exists_ring_submitted (t := "AT+CSQ".toList) (by decide +kernel)
  have h := commands_terminated_iff plainScanner 64 List.length [] (rung "AT+CSQ".toList) config st s hs
  exact ⟨config, st, s, hs, (h.2 _ ht).1.mpr (by decide)⟩

/-- One character too many for the terminator. -/
def longRing : Text := List.replicate 254 'x'

/-- The newline is lost, and neither warning is issued. -/
theorem ring_unterminated : ∃ config st s,
    .submitted config st s ∈ (system plainScanner 64).log (init 64 []) (rung longRing) ∧
      CompleteText (rung longRing) s longRing ∧
      ¬ (sendCommandToModem List.length s.command).Terminated longRing ∧
      (sendCommandToModem List.length s.command).tooLarge = false := by
  obtain ⟨config, st, s, hs, ht⟩ := exists_ring_submitted (t := longRing) (by decide +kernel)
  refine ⟨config, st, s, hs, ht, ?_, ?_⟩
  · rw [ht.command, terminated_iff]
    rintro ⟨-, hlen⟩
    rw [longRing, List.length_replicate] at hlen
    exact absurd hlen (by decide)
  · simp [sendCommandToModem]

end Driver

end Allwinner.Modem
