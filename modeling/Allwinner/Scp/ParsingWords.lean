import Allwinner.Scp.Image

/-!
# Words that take the next word of the parse buffer

`tick`, `colon` and `variable` report a missing word, `tick` also one without an entry.
The address `scan_one_word` leaves at the end of the buffer stays on the stack, and a
lookup without a result is taken for an entry at address 0.
-/

namespace Allwinner.Scp

open Library Memory
open Forth hiding ip ds rs mem io jump one two

namespace Label

def missing_after (l : Label) : List Label :=
  [cr, msg_missing, space, msg_token, space, msg_after, space, l, cr]

def missing_name : List Label := [cr, msg_missing, space, msg_variable, space, msg_name, cr]

/-- The message of each word about a missing word. -/
def missing : Label → Option (List Label)
  | tick => some (missing_after msg_tick)
  | colon => some (missing_after msg_colon)
  | «variable» => some missing_name
  | _ => none

end Label

section Words

variable [Board]

/-- The word reports that it fails, and the data stack is as before. -/
structure FailsCleanly (E : Emitter) (ds : List Dentry) (w : Label) (u : Store) : Prop where
  missing : AtEnd u.mem → ∀ ls ∈ w.missing, Acts w u [] [] (E.say u (Label.output_list ls))
  unknown : w = .tick → ¬ AtEnd u.mem → lookup ds (word u.mem) = none → ∃ inputs transfers,
    Acts w u [] [] (E.say { u.scanned with io := { u.io with inputs, transfers } } (unknown_report (word u.mem)))
  xt : w = .tick → AtEnd u.mem ∨ lookup ds (word u.mem) = none → ∀ x u', ¬ Acts w u [] [x] u'

/-- What stands where an entry at address 0 had its execution token is no token. -/
def NoEntryAtZero (u : Store) : Prop := ∃ v u', half_at u 4 = some (v, u') ∧ unflagged v = 0

variable {E : Emitter} {ds : List Dentry} {u : Store} [Sram]

theorem missing_acts {w : Label} {ls : List Label} (hw : w.missing = some ls) (h : Interpretable E ds u)
    (hend : AtEnd u.mem) : Acts w u [] [word_start u.mem] (E.say u (Label.output_list ls)) := by
  have hscan := scan_one_word_end h.parsable.scannable hend
  unfold Label.missing at hw
  split at hw
  · cases hw
    refine .of_leads rfl fun ip st rs => (run_leads (n := 1) rfl).trans ((hscan.at rfl).trans ?_)
    refine (qdup_zero rfl).trans ((qbranch_taken rfl rfl rfl).trans ((run_leads (n := 1) rfl).trans ?_))
    have hout := outputs_lead (w := .tick) (k := 14) (word_start u.mem :: st) (ip :: rs)
      (Label.missing_after .msg_tick) h.console rfl (by decide)
    exact hout.trans (run_leads (n := 1) rfl)
  · cases hw
    refine .of_leads rfl fun ip st rs => (hscan.at rfl).trans ?_
    refine (qdup_zero rfl).trans ((qbranch_taken rfl rfl rfl).trans ((run_leads (n := 1) rfl).trans ?_))
    have hout := outputs_lead (w := .colon) (k := 7) (word_start u.mem :: st) (ip :: rs)
      (Label.missing_after .msg_colon) h.console rfl (by decide)
    exact hout.trans (run_leads (n := 1) rfl)
  · cases hw
    refine .of_leads rfl fun ip st rs => (hscan.at rfl).trans ?_
    refine (qdup_zero rfl).trans ((qbranch_taken rfl rfl rfl).trans ((run_leads (n := 1) rfl).trans ?_))
    have hout := outputs_lead (w := .«variable») (k := 12) (word_start u.mem :: st) (ip :: rs)
      Label.missing_name h.console rfl (by decide)
    exact hout.trans (run_leads (n := 1) rfl)
  · cases hw

/-- `tick` up to the entry of the next word. -/
theorem tick_entry_leads (st : List Cell) (rs : List Ip) (h : Parsable ds u) (hend : ¬ AtEnd u.mem) :
    Leads ⟨.rom .tick 0, st, rs, u.mem, u.io, none⟩
      ⟨.rom .tick 6, found (lookup ds (word u.mem)) :: word_length u.mem :: word_start u.mem :: st, rs,
        u.scanned.mem, u.io, none⟩ := by
  have hne := word_length_ne_zero hend
  have hscan := scan_one_word_found h.scannable hend
  have hentry := dentry_by_name_does h.scanned.entries (word_length u.mem) h.word_readable
  rw [h.word_scanned] at hentry
  refine (run_leads (n := 1) rfl).trans ((hscan.at rfl).trans ?_)
  refine (qdup_ne rfl hne).trans ((qbranch_passed rfl hne).trans ?_)
  exact (twodup_does.at rfl).trans (hentry.at rfl)

theorem tick_unknown_stuck (h : Interpretable E ds u) (hend : ¬ AtEnd u.mem)
    (hunknown : lookup ds (word u.mem) = none) (hfails : half_at u.scanned 4 = none) :
    ¬ Acts .tick u [] post u' := by
  intro hacts
  have hleads := (tick_entry_leads [] [.rom .main 1000] h.parsable hend).trans
    (run_leads (n := 10) rfl : Leads _ ⟨.rom .dentry_xta 1, (found (lookup ds (word u.mem)) + 4) ::
      word_length u.mem :: word_start u.mem :: [], [.rom .tick 7, .rom .main 1000], u.scanned.mem, u.io, none⟩)
  rw [hunknown] at hleads
  have hend := hacts.stuck rfl hleads (xtaat_stuck hfails rfl)
  cases hend

theorem tick_unknown_acts (h : Interpretable E ds u) (hend : ¬ AtEnd u.mem)
    (hunknown : lookup ds (word u.mem) = none) (hhalf : half_at u.scanned 4 = some (v, u')) :
    Acts .tick u [] (if unflagged v = 0 then [] else [unflagged v])
      (if unflagged v = 0 then E.say u' (unknown_report (word u.mem)) else u') := by
  obtain ⟨inputs, transfers, rfl⟩ := half_at_sent hhalf
  have hxta := dentry_xta_acts (a := 0) hhalf
  have hstart (st : List Cell) (rs : List Ip) := tick_entry_leads st rs h.parsable hend
  rw [hunknown] at hstart
  refine .of_leads rfl fun ip st rs => (hstart st _).trans ((hxta.at rfl).trans ?_)
  split
  · rename_i hzero
    rw [hzero]
    have hconsole : Console E { u.scanned with io := { u.io with inputs, transfers } } :=
      ⟨E.frame h.scanned.console.ready .refl, h.scanned.console.messages, h.scanned.console.apart⟩
    have hreport := unknown_leads (w := .tick) (k := 25) st (ip :: rs)
      (word_length u.mem) hconsole rfl h.parsable.word_readable h.word_apart
    rw [h.parsable.word_scanned] at hreport
    refine (qdup_zero rfl).trans ((qbranch_taken rfl rfl rfl).trans ?_)
    exact (run_leads (n := 1) rfl).trans (hreport.trans (run_leads (n := 1) rfl))
  · rename_i hne
    refine (qdup_ne rfl hne).trans ((qbranch_passed rfl hne).trans ?_)
    exact run_leads (n := 17) rfl

/-- The parsing words fail cleanly where there is a next word and, for `tick`, it has an
entry or none is seen at address 0. -/
theorem fails_cleanly_iff (h : Interpretable E ds u) {w : Label} (hw : w.missing.isSome) :
    FailsCleanly E ds w u ↔ ¬ AtEnd u.mem ∧
      (w = .tick → lookup ds (word u.mem) = none → NoEntryAtZero u.scanned) := by
  obtain ⟨ls, hls⟩ := Option.isSome_iff_exists.mp hw
  have hprim : w.prim? = none := by
    unfold Label.missing at hls
    split at hls <;> first | rfl | cases hls
  constructor
  · intro hclean
    have hend : ¬ AtEnd u.mem := by
      intro hend
      have hleft := missing_acts hls h hend
      cases (hleft.unique (hclean.missing hend ls hls) hprim).1
    refine ⟨hend, ?_⟩
    rintro rfl hunknown
    obtain ⟨inputs, transfers, hacts⟩ := hclean.unknown rfl hend hunknown
    cases hhalf : half_at u.scanned 4 with
    | none => exact (tick_unknown_stuck h hend hunknown hhalf hacts).elim
    | some r =>
      obtain ⟨v, u'⟩ := r
      refine ⟨v, u', hhalf, ?_⟩
      by_contra hne
      have hleft := tick_unknown_acts h hend hunknown hhalf
      rw [if_neg hne, if_neg hne] at hleft
      cases (hleft.unique hacts rfl).1
  · rintro ⟨hend, hzero⟩
    refine ⟨fun h => (hend h).elim, ?_, ?_⟩
    · rintro rfl - hunknown
      obtain ⟨v, u', hhalf, hv⟩ := hzero rfl hunknown
      obtain ⟨inputs, transfers, rfl⟩ := half_at_sent hhalf
      have hacts := tick_unknown_acts h hend hunknown hhalf
      rw [if_pos hv, if_pos hv] at hacts
      exact ⟨inputs, transfers, hacts⟩
    · rintro rfl hfails x u'' hacts
      have hunknown := hfails.resolve_left hend
      obtain ⟨v, u', hhalf, hv⟩ := hzero rfl hunknown
      have hempty := tick_unknown_acts h hend hunknown hhalf
      rw [if_pos hv] at hempty
      cases (hempty.unique hacts rfl).1

end Words

namespace ParsingWords

local instance : Board := .flat
local instance : Sram := .flat

/-- Without a name `colon` leaves the address behind the buffer. -/
theorem colon_leaves_address :
    Acts .colon (request []) [] [mib_text]
      (uart.say (request []) (chars (ascii "\n\rmissing token after :\n\r"))) ∧
    ¬ FailsCleanly uart static_dictionary .colon (request []) := by
  have hs : ([] : List Byte).length ≤ 1020 := Nat.zero_le _
  have hend : AtEnd (request []).mem := by
    rw [AtEnd, text_request hs]
    rfl
  have hleft := missing_acts (w := .colon) rfl (interpretable_request hs) hend
  have hstart : word_start (request []).mem = mib_text := by
    rw [word_start, ptr_request, text_request hs]
    rfl
  rw [hstart] at hleft
  refine ⟨hleft, fun hclean => ?_⟩
  cases (hleft.unique (hclean.missing hend _ rfl) rfl).1

theorem tick_of_entry_fails_cleanly :
    FailsCleanly uart static_dictionary .tick (request (ascii "dup")) := by
  have hs : (ascii "dup").length ≤ 1020 := by decide
  refine (fails_cleanly_iff (interpretable_request hs) rfl).mpr ⟨?_, fun _ hunknown => ?_⟩
  · rw [AtEnd, text_request hs]
    decide
  · rw [word, text_request hs] at hunknown
    exact absurd hunknown (by decide +kernel)

end ParsingWords

end Allwinner.Scp
