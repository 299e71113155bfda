import Allwinner.Modem.Driver
import Allwinner.Modem.StatusLaws

/-!
# Freshness of the call list

The call list goes out of date by a line, by the submission of `AT+CLCC`, or
because the manager says so. Only the modem can bring it up to date again. The
manager drops the flag alone and keeps the call of the old list, and the next
line of any kind takes that call for a valid response.
-/

namespace Allwinner.Modem

open Library (System Shielded OpenSince EachGiven)

namespace CallList

/-- What bears on the call list. -/
inductive Happening where
  /-- a line processed while `pending` was the pending command -/
  | line (l : Text) (pending : Option Command)
  | submitted (command : Command)
  /-- `Driver::invalidate_call_list` -/
  | invalidated
  | canceled

namespace Happening

/-- The list is out of date. -/
def Invalidates : Happening → Prop
  | line l pending =>
    l = lineNoCarrier ∨ l = lineRing ∨ (l = lineOk ∧ pending.any Status.clccInvalidated = true)
  | submitted command => command.chars = atRequestCallList
  | invalidated => True
  | canceled => False

/-- The modem lists a voice call, or ends its list. -/
def Validates (scan : Scanner) : Happening → Prop
  | line l pending =>
    (Call.ofLine scan l).isSome ∨ (l = lineOk ∧ Status.isPending pending atRequestCallList = true)
  | _ => False

end Happening

/-- A happening, and whether the list counts as up to date after it. -/
structure Moment where
  happening : Happening
  upToDate : Bool

/-- Between an invalidation and a moment that finds the list up to date, the modem has
listed its calls, unless it does so at that moment. -/
def Fresh (scan : Scanner) (log : List Moment) : Prop :=
  Shielded (fun _ x => x.happening.Invalidates)
    (fun y => y.upToDate = true ∧ ¬ y.happening.Validates scan)
    (fun z => z.happening.Validates scan) log

end CallList

open CallList

namespace Driver

variable {maxLineLen : Nat} (scan : Scanner)

/-- The lines of a batch. -/
def lineMoments (s : Status) : List Text → List Moment
  | [] => []
  | l :: ls =>
    ⟨.line l s.pendingCommand, (s.applyLine scan l).clccUpToDate⟩ ::
      lineMoments (s.applyLine scan l) ls

def moments (d : Driver maxLineLen) : Event → List Moment
  | .apply config responses =>
    let r := d.apply scan config responses
    lineMoments scan d.status (d.linesOf responses)
      ++ r.2.toList.map fun s => ⟨.submitted s.command, r.1.status.clccUpToDate⟩
  | .invalidateCallList => [⟨.invalidated, d.invalidateCallList.status.clccUpToDate⟩]
  | .cancelCommand => [⟨.canceled, d.cancelCommand.status.clccUpToDate⟩]

/-- The driver, watched for its call list. -/
def watched (maxLineLen : Nat) : System (Driver maxLineLen) Event Moment :=
  ⟨fun d e => ((d.step scan e).1, d.moments scan e)⟩

end Driver

-- ---------------------------------------------------------------------------
-- One line
-- ---------------------------------------------------------------------------

namespace CallList

variable {scan : Scanner} {maxLineLen : Nat} {s : Status} {l : Text} {h : List Moment} {d : Driver maxLineLen}

/-- The list is out of date, but its call is still there. -/
def Stale (s : Status) : Prop := s.clccUpToDate = false ∧ s.currentCall.isSome

/-- The line lists a voice call or ends the list, or it discards the call of the old list. -/
def Settles (scan : Scanner) (s : Status) (l : Text) : Prop :=
  (Happening.line l s.pendingCommand).Validates scan ∨
    (Happening.line l s.pendingCommand).Invalidates ∨ s.ConfirmsReboot l

/-- The list went out of date and was not listed since. -/
def Outdated (scan : Scanner) (h : List Moment) : Prop :=
  OpenSince (fun _ x => x.happening.Invalidates) (fun z => z.happening.Validates scan) h

/-- The flag is as the log says, and only a list out of date keeps a call without it. -/
structure Tracked (scan : Scanner) (h : List Moment) (s : Status) : Prop where
  flag : Outdated scan h → s.clccUpToDate = false
  stale : Stale s → Outdated scan h

theorem outdated_snoc {x : Moment} : Outdated scan (h ++ [x]) ↔
    x.happening.Invalidates ∨ (Outdated scan h ∧ ¬ x.happening.Validates scan) :=
  Library.openSince_snoc

theorem not_stale_applyLine : ¬ Stale (s.applyLine scan l) := by
  rintro ⟨hflag, hcall⟩
  rw [Status.clccUpToDate_of_currentCall hcall] at hflag
  cases hflag

theorem not_validates_of_invalidates (hl : (Happening.line l pending).Invalidates) :
    ¬ (Happening.line l pending).Validates scan := by
  have hlisted : ∀ {t : Text}, startsWith t clccPrefix = false → (Call.ofLine scan t).isSome = false := by
    intro t ht
    simp [Call.ofLine, withValue, ht]
  rintro (hcall | ⟨rfl, hpending⟩)
  · rcases hl with rfl | rfl | ⟨rfl, -⟩ <;> rw [hlisted (by decide)] at hcall <;> cases hcall
  · rcases hl with h | h | ⟨-, hinvalidated⟩
    · cases h
    · cases h
    · cases pending with
      | none => cases hpending
      | some c =>
        have hc : c.chars = atRequestCallList := by simpa using hpending
        simp only [Option.any_some, Status.clccInvalidated, Str.startsWith, hc] at hinvalidated
        revert hinvalidated
        decide

theorem flag_of_invalidates (hl : (Happening.line l s.pendingCommand).Invalidates) :
    (s.applyLine scan l).clccUpToDate = false := by
  have hv : ¬ (Happening.line l s.pendingCommand).Validates scan := not_validates_of_invalidates hl
  rw [Status.clccUpToDate_applyLine]
  split_ifs with hreset hdiscard
  · rfl
  · have hends : (decide (l = lineOk) && Status.isPending s.pendingCommand atRequestCallList) = false := by
      by_contra hends
      exact hv (.inr (by simpa using hends))
    simp [hends, Status.callAfter, hdiscard]
  · rcases hl with h | h | h
    · exact absurd (.inl h) hdiscard
    · exact absurd (.inr h) hdiscard
    · exact absurd (.inr h) hreset

/-- A line that neither lists nor discards leaves the list up to date if it was so, or
if a call is kept. -/
theorem flag_of_other (hv : ¬ (Happening.line l s.pendingCommand).Validates scan)
    (hi : ¬ (Happening.line l s.pendingCommand).Invalidates) (hr : ¬ s.ConfirmsReboot l) :
    (s.applyLine scan l).clccUpToDate = (s.currentCall.isSome || s.clccUpToDate) := by
  have hreset : ¬ (s.ConfirmsReboot l ∨ s.InvalidatesClcc l) := by
    rintro (h | h)
    · exact hr h
    · exact hi (.inr (.inr h))
  have hdiscard : ¬ (l = lineNoCarrier ∨ l = lineRing) := by
    rintro (h | h)
    · exact hi (.inl h)
    · exact hi (.inr (.inl h))
  have hends : (decide (l = lineOk) && Status.isPending s.pendingCommand atRequestCallList) = false := by
    by_contra hends
    exact hv (.inr (by simpa using hends))
  have hcall : Call.ofLine scan l = none := by
    by_contra hcall
    exact hv (.inl (Option.isSome_iff_ne_none.mpr hcall))
  rw [Status.clccUpToDate_applyLine, if_neg hreset, hends, Status.callAfter, if_neg hdiscard,
    if_neg hdiscard, hcall]
  rfl

/-- A line leaves log and status in step if it settles a stale list. -/
theorem Tracked.line (ht : Tracked scan h s) (hset : Stale s → Settles scan s l) :
    Tracked scan (h ++ [⟨.line l s.pendingCommand, (s.applyLine scan l).clccUpToDate⟩])
      (s.applyLine scan l) where
  flag := by
    rw [outdated_snoc]
    rintro (hi | ⟨hout, hv⟩)
    · exact flag_of_invalidates hi
    · by_cases hi : (Happening.line l s.pendingCommand).Invalidates
      · exact flag_of_invalidates hi
      · by_cases hr : s.ConfirmsReboot l
        · rw [Status.clccUpToDate_applyLine, if_pos (.inl hr)]
        · have hflag := ht.flag hout
          rw [flag_of_other hv hi hr, hflag, Bool.or_false]
          by_contra hcall
          rcases hset ⟨hflag, (Bool.eq_false_or_eq_true _).resolve_right hcall⟩ with h | h | h
          · exact hv h
          · exact hi h
          · exact hr h
  stale hstale := absurd hstale not_stale_applyLine

/-- What a fresh log asks of an entry. -/
def Good (scan : Scanner) (h : List Moment) (y : Moment) : Prop :=
  y.upToDate = true ∧ ¬ y.happening.Validates scan → ¬ Outdated scan h

/-- A line is a fresh entry exactly if it settles a stale list. -/
theorem good_line (ht : Tracked scan h s) :
    Good scan h ⟨.line l s.pendingCommand, (s.applyLine scan l).clccUpToDate⟩ ↔
      (Stale s → Settles scan s l) := by
  constructor
  · intro hgood hstale
    by_contra hno
    simp only [Settles, not_or] at hno
    obtain ⟨hv, hi, hr⟩ := hno
    refine hgood ⟨?_, hv⟩ (ht.stale hstale)
    rw [flag_of_other hv hi hr, hstale.2]
    rfl
  · rintro hset ⟨hflag, hv⟩ hout
    have hnext := (ht.line hset).flag (outdated_snoc.mpr (.inr ⟨hout, hv⟩))
    exact Bool.false_ne_true (hnext.symm.trans hflag)

-- ---------------------------------------------------------------------------
-- A batch and a run
-- ---------------------------------------------------------------------------

open Driver (lineMoments moments)

/-- The first line after the flag alone was dropped settles the list. -/
def Settled (scan : Scanner) (d : Driver maxLineLen) : Event → Prop
  | .apply _ responses =>
    Stale d.status → ∀ l ∈ (d.linesOf responses).head?, Settles scan d.status l
  | .invalidateCallList => True
  | .cancelCommand => True

theorem Tracked.lines {ls : List Text} (ht : Tracked scan h s)
    (hset : Stale s → ∀ l ∈ ls.head?, Settles scan s l) :
    Tracked scan (h ++ lineMoments scan s ls) (s.applyLines scan ls) := by
  induction ls generalizing s h with
  | nil => simpa [lineMoments] using ht
  | cons l ls ih =>
    have hl := ht.line fun hstale => hset hstale l rfl
    simpa [lineMoments] using ih hl fun hstale => absurd hstale not_stale_applyLine

/-- No line leaves the list stale, so the lines after it have nothing to settle. -/
theorem good_lines_of_not_stale {ls : List Text} (ht : Tracked scan h s) (hstale : ¬ Stale s) :
    EachGiven (fun pre => Good scan (h ++ pre)) (lineMoments scan s ls) := by
  induction ls generalizing h s with
  | nil => exact Library.eachGiven_nil
  | cons l ls ih =>
    have hset : Stale s → Settles scan s l := fun h => absurd h hstale
    rw [lineMoments, Library.eachGiven_cons, List.append_nil, good_line ht]
    refine ⟨hset, ?_⟩
    simpa using ih (ht.line hset) not_stale_applyLine

theorem good_lines {ls : List Text} (ht : Tracked scan h s) :
    EachGiven (fun pre => Good scan (h ++ pre)) (lineMoments scan s ls) ↔
      (Stale s → ∀ l ∈ ls.head?, Settles scan s l) := by
  cases ls with
  | nil => exact iff_of_true Library.eachGiven_nil (by simp)
  | cons l ls =>
    simp only [List.head?_cons, Option.mem_def, Option.some.injEq, forall_eq']
    rw [lineMoments, Library.eachGiven_cons, List.append_nil, good_line ht]
    refine ⟨fun h => h.1, fun hset => ⟨hset, ?_⟩⟩
    simpa using good_lines_of_not_stale (ht.line hset) not_stale_applyLine

/-- A submission either puts the list out of date or leaves flag and call alone. -/
theorem clccUpToDate_commandSubmitted : (s.commandSubmitted c).clccUpToDate =
    (decide (c.chars ≠ atRequestCallList) && s.clccUpToDate) := by
  unfold Status.commandSubmitted
  split <;> simp_all [Status.clccOutOfDate, Status.resetCommand, Status.statusChanged]

theorem Tracked.submitted (ht : Tracked scan h s) :
    Tracked scan (h ++ [⟨.submitted c, (s.commandSubmitted c).clccUpToDate⟩])
      (s.commandSubmitted c) where
  flag := by
    rw [outdated_snoc, clccUpToDate_commandSubmitted]
    rintro (hi | ⟨hout, -⟩)
    · have hc : c.chars = atRequestCallList := hi
      simp [hc]
    · rw [ht.flag hout, Bool.and_false]
  stale := by
    rw [outdated_snoc]
    rintro ⟨hflag, hcall⟩
    by_cases hc : c.chars = atRequestCallList
    · exact .inl hc
    · refine .inr ⟨ht.stale ⟨?_, ?_⟩, id⟩
      · simpa [clccUpToDate_commandSubmitted, hc] using hflag
      · simpa [Status.commandSubmitted, hc, Status.resetCommand, Status.statusChanged] using hcall

theorem good_submitted (ht : Tracked scan h s) :
    Good scan h ⟨.submitted c, (s.commandSubmitted c).clccUpToDate⟩ := by
  rintro ⟨hflag, -⟩ hout
  rw [clccUpToDate_commandSubmitted, ht.flag hout, Bool.and_false] at hflag
  cases hflag

theorem tracked_init (settings : List (Qcfg.Name × Qcfg.Value)) :
    Tracked scan [] (Driver.init maxLineLen settings).status where
  flag h := absurd h Library.not_openSince_nil
  stale h := by cases h.2

/-- The moments of an `apply` are those of its lines and of its submission. -/
theorem moments_apply : d.moments scan (.apply config responses) =
    lineMoments scan d.status (d.linesOf responses) ++
      match (d.control.applyConfig (d.received scan responses) config).2 with
      | none => []
      | some s =>
        [⟨.submitted s.command, ((d.received scan responses).commandSubmitted s.command).clccUpToDate⟩] := by
  simp only [moments, Driver.apply]
  cases (d.control.applyConfig (d.received scan responses) config).2 <;> rfl

theorem tracked_next {e : Event} (ht : Tracked scan h d.status) (hset : Settled scan d e) :
    Tracked scan (h ++ d.moments scan e) (d.step scan e).1.status := by
  cases e with
  | apply config responses =>
    have hlines : Tracked scan (h ++ lineMoments scan d.status (d.linesOf responses))
        (d.received scan responses) := ht.lines hset
    rw [moments_apply]
    simp only [Driver.step, Driver.apply]
    cases (d.control.applyConfig (d.received scan responses) config).2 with
    | none => simpa using hlines
    | some s => simpa using hlines.submitted
  | invalidateCallList =>
    refine ⟨fun _ => rfl, fun _ => ?_⟩
    exact outdated_snoc.mpr (.inl trivial)
  | cancelCommand =>
    have hcanceled : ((d.step scan .cancelCommand).1.status.clccUpToDate = d.status.clccUpToDate) ∧
        (d.step scan .cancelCommand).1.status.currentCall = d.status.currentCall := by
      simp only [Driver.step, Driver.cancelCommand]
      cases d.status.pendingCommand <;> exact ⟨rfl, rfl⟩
    refine ⟨fun hout => ?_, fun hstale => ?_⟩
    · rw [hcanceled.1]
      exact ht.flag (by simpa [moments, outdated_snoc, Happening.Invalidates, Happening.Validates] using hout)
    · refine outdated_snoc.mpr (.inr ⟨ht.stale ⟨?_, ?_⟩, id⟩)
      · exact hcanceled.1 ▸ hstale.1
      · exact hcanceled.2 ▸ hstale.2

theorem good_next {e : Event} (ht : Tracked scan h d.status) :
    EachGiven (fun pre => Good scan (h ++ pre)) (d.moments scan e) ↔ Settled scan d e := by
  cases e with
  | apply config responses =>
    rw [moments_apply, Library.eachGiven_append, good_lines ht]
    refine ⟨fun h => h.1, fun hset => ⟨hset, ?_⟩⟩
    have hlines : Tracked scan (h ++ lineMoments scan d.status (d.linesOf responses))
        (d.received scan responses) := ht.lines hset
    cases (d.control.applyConfig (d.received scan responses) config).2 with
    | none => exact Library.eachGiven_nil
    | some s =>
      rw [Library.eachGiven_cons, List.append_nil]
      exact ⟨good_submitted hlines, Library.eachGiven_nil⟩
  | invalidateCallList =>
    refine iff_of_true ?_ trivial
    rw [moments, Library.eachGiven_cons]
    exact ⟨fun h => absurd h.1 Bool.false_ne_true, Library.eachGiven_nil⟩
  | cancelCommand =>
    refine iff_of_true ?_ trivial
    rw [moments, Library.eachGiven_cons, List.append_nil]
    refine ⟨?_, Library.eachGiven_nil⟩
    rintro ⟨hflag, -⟩ hout
    have hnext := (tracked_next (e := .cancelCommand) ht trivial).flag
      (outdated_snoc.mpr (.inr ⟨hout, id⟩))
    exact Bool.false_ne_true (hnext.symm.trans hflag)

/-- The call list never counts as up to date without an answer of the modem exactly if every
list the manager invalidated while it named a call is settled by the first line after it. -/
theorem fresh_iff (settings : List (Qcfg.Name × Qcfg.Value)) (es : List Event) :
    Fresh scan ((Driver.watched scan maxLineLen).log (Driver.init maxLineLen settings) es) ↔
      (Driver.watched scan maxLineLen).Along (Settled scan) (Driver.init maxLineLen settings) es := by
  rw [Fresh, Library.shielded_iff_eachGiven]
  exact System.eachGiven_iff_along (S := Driver.watched scan maxLineLen) (Q := Good scan)
    (I := fun h (d : Driver maxLineLen) => Tracked scan h d.status)
    (fun _ _ _ ht hset => tracked_next ht hset) (fun _ _ _ ht => good_next ht) (tracked_init settings)

/-- An incoming call is listed, the list is invalidated, and the modem says `CONNECT`. -/
def listedThenInvalidated : List Event :=
  [.apply {} ["+CLCC: 1,0,4,0,0,\"5\",1\r\n".toList], .invalidateCallList,
    Driver.answer "CONNECT".toList]

/-- The next line of any kind brings the invalidated list up to date. -/
theorem stale_call_accepted : ¬ Fresh plainScanner ((Driver.watched plainScanner 64).log
    (Driver.init 64 []) listedThenInvalidated) := by
  intro h
  have hlog : ((Driver.watched plainScanner 64).log (Driver.init 64 []) listedThenInvalidated).drop 2 =
      [⟨.invalidated, false⟩, ⟨.line "CONNECT".toList (some (Command.ofText atCheckReady)), true⟩] := rfl
  have hsplit := List.take_append_drop 2
    ((Driver.watched plainScanner 64).log (Driver.init 64 []) listedThenInvalidated)
  rw [hlog] at hsplit
  have hv : ¬ (Happening.line "CONNECT".toList (some (Command.ofText atCheckReady))).Validates plainScanner := by
    rintro (hcall | ⟨hok, -⟩)
    · exact Bool.false_ne_true hcall
    · exact absurd hok (by decide)
  obtain ⟨z, hz, -⟩ := h _ ⟨.invalidated, false⟩ [] ⟨.line "CONNECT".toList _, true⟩ []
    (by rw [List.append_assoc]; exact hsplit.symm) trivial ⟨rfl, hv⟩
  cases hz

end CallList

end Allwinner.Modem
