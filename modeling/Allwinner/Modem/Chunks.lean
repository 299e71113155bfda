import Allwinner.Modem.StatusLaws
import Allwinner.Modem.ReadBuffer
import Mathlib.Data.List.DropRight

/-!
# The stream and its chunks

What the lines delivered to the status owe to the byte stream, and what they
owe to the way it is cut into reads. `splitLines` reads the stream as a whole: the
lines it completes, none of them empty, and the incomplete one at its end. The
read buffer delivers just these and, wherever a cut separates end-of-line
characters, an empty line besides.
-/

namespace Allwinner.Modem

def EolFree (t : Text) : Prop := ∀ c ∈ t, endOfLine c = false

/-- Lines never exceed `maxLineLen`, the incomplete one at the end included. -/
def LinesFit (maxLineLen : Nat) (stream : Text) : Prop :=
  ∀ t, t <:+: stream → EolFree t → t.length ≤ maxLineLen

/-- The completed lines and the incomplete one, `cur` being under way. -/
def splitLines (cur : Text) : Text → List Text × Text
  | [] => ([], cur)
  | c :: cs =>
    if endOfLine c then
      let (lines, kept) := splitLines [] cs
      (if cur = [] then lines else cur :: lines, kept)
    else splitLines (cur ++ [c]) cs

/-- The lines of a stream that contain anything. -/
def completedLines (stream : Text) : List Text := (splitLines [] stream).1

/-- The stream ends in a run of end-of-line characters, up to an incomplete line. -/
def LastRun (t : Text) : Prop :=
  ∃ run cur, t = run ++ cur ∧ run ≠ [] ∧ (∀ c ∈ run, endOfLine c = true) ∧ EolFree cur

/-- A cut falls within the last run of end-of-line characters. -/
def CutInLastRun (chunks : List Text) : Prop :=
  ∃ before after, chunks = before ++ after ∧
    (∃ c ∈ before.flatten.getLast?, endOfLine c = true) ∧ LastRun after.flatten

-- ---------------------------------------------------------------------------
-- The splitLines
-- ---------------------------------------------------------------------------

theorem eolFree_append : EolFree (a ++ b) ↔ EolFree a ∧ EolFree b := by
  simp [EolFree, or_imp, forall_and]

theorem eolFree_rtakeWhile (t : Text) : EolFree (t.rtakeWhile (!endOfLine ·)) := by
  intro c hc
  simpa using List.mem_rtakeWhile_imp hc

theorem EolFree.nil : EolFree [] := by simp [EolFree]

theorem LastRun.head (h : LastRun t) : ∃ c ∈ t.head?, endOfLine c = true := by
  obtain ⟨run, cur, rfl, hne, hrun, -⟩ := h
  obtain ⟨c, run, rfl⟩ := List.exists_cons_of_ne_nil hne
  exact ⟨c, rfl, hrun c (by simp)⟩

theorem EolFree.not_lastRun (h : EolFree t) : ¬ LastRun t := by
  rintro hlast
  obtain ⟨c, hc, heol⟩ := hlast.head
  simp [h c (List.mem_of_mem_head? hc)] at heol

theorem LastRun.eq_nil_of_append (h : LastRun (t ++ u)) (ht : EolFree t) : t = [] := by
  obtain ⟨c, hc, heol⟩ := h.head
  by_contra hne
  obtain ⟨d, t, rfl⟩ := List.exists_cons_of_ne_nil hne
  obtain rfl : d = c := by simpa using hc
  simp [ht d (by simp)] at heol

theorem lastRun_append_iff (hu : EolFree u) : LastRun (t ++ u) ↔ LastRun t := by
  constructor
  · rintro ⟨run, cur, heq, hne, hrun, hcur⟩
    rcases List.append_eq_append_iff.mp heq with ⟨mid, rfl, rfl⟩ | ⟨mid, rfl, rfl⟩
    · have hmid : mid = [] := List.eq_nil_iff_forall_not_mem.mpr fun c hc => by
        simpa [hrun c (by simp [hc])] using hu c (by simp [hc])
      subst hmid
      exact ⟨t, [], by simp, by simpa using hne, by simpa using hrun, .nil⟩
    · exact ⟨run, mid, rfl, hne, hrun, (eolFree_append.mp hcur).1⟩
  · rintro ⟨run, cur, rfl, hne, hrun, hcur⟩
    exact ⟨run, cur ++ u, by simp, hne, hrun, eolFree_append.mpr ⟨hcur, hu⟩⟩

theorem LastRun.of_append (h : LastRun (t ++ u)) (hu : ¬ EolFree u) :
    (∀ c ∈ t, endOfLine c = true) ∧ LastRun u := by
  obtain ⟨run, cur, heq, hne, hrun, hcur⟩ := h
  rcases List.append_eq_append_iff.mp heq with ⟨mid, rfl, rfl⟩ | ⟨mid, rfl, rfl⟩
  · refine ⟨fun c hc => hrun c (by simp [hc]), mid, cur, rfl, ?_, ?_, hcur⟩
    · rintro rfl
      exact hu hcur
    · exact fun c hc => hrun c (by simp [hc])
  · exact absurd (eolFree_append.mp hcur).2 hu

theorem splitLines_append (cur a b : Text) :
    splitLines cur (a ++ b) =
      ((splitLines cur a).1 ++ (splitLines (splitLines cur a).2 b).1, (splitLines (splitLines cur a).2 b).2) := by
  induction a generalizing cur with
  | nil => rfl
  | cons c a ih =>
    by_cases hc : endOfLine c
    · by_cases hcur : cur = [] <;> simp [splitLines, hc, hcur, ih]
    · simp [splitLines, hc, ih]

theorem splitLines_eolFree (h : EolFree t) : splitLines cur t = ([], cur ++ t) := by
  induction t generalizing cur with
  | nil => simp [splitLines]
  | cons c t ih =>
    have hc : endOfLine c = false := h c (by simp)
    have ht : EolFree t := fun d hd => h d (by simp [hd])
    simp [splitLines, hc, ih ht]

/-- A run of end-of-line characters completes the line under way. -/
theorem splitLines_run (hne : run ≠ []) (hrun : ∀ c ∈ run, endOfLine c = true) :
    splitLines cur run = (if cur = [] then [] else [cur], []) := by
  induction run generalizing cur with
  | nil => exact absurd rfl hne
  | cons c run ih =>
    have hc : endOfLine c = true := hrun c (by simp)
    rcases eq_or_ne run [] with rfl | hr
    · simp [splitLines, hc]
    · simp [splitLines, hc, ih hr fun d hd => hrun d (by simp [hd])]

/-- Scanning goes on from the incomplete line alone. -/
theorem splitLines_kept (a b : Text) : (splitLines [] (a ++ b)).2 = (splitLines (splitLines [] a).2 b).2 := by
  rw [splitLines_append]

theorem kept_eq (t : Text) : (splitLines [] t).2 = t.rtakeWhile (!endOfLine ·) := by
  induction t using List.reverseRecOn with
  | nil => rfl
  | append_singleton t c ih =>
    rw [splitLines_kept, ih]
    by_cases hc : endOfLine c <;> simp [splitLines, hc]

theorem LinesFit.infix (h : LinesFit maxLineLen t) (hu : u <:+: t) : LinesFit maxLineLen u :=
  fun v hv => h v (hv.trans hu)

theorem kept_suffix (t : Text) : (splitLines [] t).2 <:+ t := by
  rw [kept_eq]
  exact List.rtakeWhile_suffix _ _

theorem eolFree_kept (t : Text) : EolFree (splitLines [] t).2 := by
  rw [kept_eq]
  exact eolFree_rtakeWhile t

-- ---------------------------------------------------------------------------
-- One payload
-- ---------------------------------------------------------------------------

/-- A first line, the run of characters that ends it, and what follows. -/
structure FirstLine (p line run rest : Text) : Prop where
  eq : p = line ++ (run ++ rest)
  line_eolFree : EolFree line
  run_ne_nil : run ≠ []
  run_eol : ∀ c ∈ run, endOfLine c = true
  rest_head : ∀ c ∈ rest.head?, endOfLine c = false

theorem exists_firstLine (h : ¬ EolFree p) : ∃ line run rest, FirstLine p line run rest := by
  refine ⟨p.takeWhile (!endOfLine ·), (p.dropWhile (!endOfLine ·)).takeWhile endOfLine,
    (p.dropWhile (!endOfLine ·)).dropWhile endOfLine, ?_, ?_, ?_, ?_, ?_⟩
  · simp [List.takeWhile_append_dropWhile]
  · intro c hc
    simpa using List.mem_takeWhile_imp hc
  · intro hrun
    refine h fun c hc => ?_
    have hnil : p.dropWhile (!endOfLine ·) = [] := by
      by_contra hne
      have hhead := List.head_dropWhile_not (!endOfLine ·) hne
      obtain ⟨d, ds, hd⟩ := List.exists_cons_of_ne_nil hne
      simp only [hd, List.head_cons, Bool.not_eq_false'] at hhead
      simp [hd, hhead] at hrun
    simpa using List.dropWhile_eq_nil_iff.mp hnil c hc
  · intro c hc
    exact List.mem_takeWhile_imp hc
  · intro c hc
    have hhead := List.head?_dropWhile_not endOfLine (p.dropWhile (!endOfLine ·))
    rw [Option.mem_def.mp hc] at hhead
    exact hhead

theorem FirstLine.dropWhile_eq (h : FirstLine p line run rest) :
    (run ++ rest).dropWhile endOfLine = rest := by
  rw [List.dropWhile_append_of_pos h.run_eol]
  cases rest with
  | nil => rfl
  | cons c rest => exact List.dropWhile_cons_of_neg (by simp [h.rest_head c rfl])

theorem FirstLine.splitLines_eq (h : FirstLine p line run rest) : splitLines [] p =
    ((if line = [] then [] else [line]) ++ (splitLines [] rest).1, (splitLines [] rest).2) := by
  rw [h.eq, splitLines_append, splitLines_eolFree h.line_eolFree, splitLines_append,
    splitLines_run h.run_ne_nil h.run_eol]
  simp

theorem FirstLine.length_rest (h : FirstLine p line run rest) : rest.length < p.length := by
  have := List.length_pos_iff.mpr h.run_ne_nil
  simp only [h.eq, List.length_append]
  omega

theorem FirstLine.not_lastRun_rest (h : FirstLine p line run rest) : ¬ LastRun rest := by
  intro hlast
  obtain ⟨c, hc, heol⟩ := hlast.head
  simp [h.rest_head c hc] at heol

theorem FirstLine.lastRun_iff (h : FirstLine p line run rest) :
    LastRun p ↔ line = [] ∧ EolFree rest := by
  constructor
  · intro hlast
    have hline : line = [] := (h.eq ▸ hlast).eq_nil_of_append h.line_eolFree
    obtain ⟨run', cur, heq, -, hrun', hcur⟩ := hlast
    have hrest : run ++ rest = run' ++ cur := by rw [← heq, h.eq, hline, List.nil_append]
    refine ⟨hline, ?_⟩
    rw [← h.dropWhile_eq, hrest, List.dropWhile_append_of_pos hrun']
    exact fun c hc => hcur c ((List.dropWhile_suffix _).subset hc)
  · rintro ⟨rfl, hrest⟩
    exact ⟨run, rest, h.eq, h.run_ne_nil, h.run_eol, hrest⟩

namespace ReadBuffer

variable {maxLineLen fuel : Nat} {p : Text}

/-- What is kept of an incomplete line. -/
def keep (maxLineLen : Nat) (line : Text) : Text := if line.length > maxLineLen then [] else line

theorem keep_of_le (h : line.length ≤ maxLineLen) : keep maxLineLen line = line :=
  if_neg (Nat.not_lt.mpr h)

theorem keep_of_lt (h : maxLineLen < line.length) : keep maxLineLen line = [] := if_pos h

theorem length_keep_le (line : Text) : (keep maxLineLen line).length ≤ maxLineLen := by
  rcases Nat.lt_or_ge maxLineLen line.length with h | h
  · simp [keep_of_lt h]
  · simpa [keep_of_le h] using h

theorem consume_eolFree (hfuel : p.length ≤ fuel) (hp : EolFree p) :
    consume maxLineLen fuel p = ([], keep maxLineLen p) := by
  have hline : p.takeWhile (!endOfLine ·) = p :=
    List.takeWhile_eq_self_iff.mpr fun c hc => by simp [hp c hc]
  by_cases hnil : p = []
  · subst hnil
    cases fuel <;> simp [consume, keep]
  · obtain ⟨fuel, rfl⟩ : ∃ n, fuel = n + 1 :=
      ⟨fuel - 1, by have := List.length_pos_iff.mpr hnil; omega⟩
    simp [consume, hnil, hline, keep]

theorem consume_firstLine (h : FirstLine p line run rest) :
    consume maxLineLen (fuel + 1) p =
      (line :: (consume maxLineLen fuel rest).1, (consume maxLineLen fuel rest).2) := by
  have hdrop : (run ++ rest).dropWhile endOfLine = rest := h.dropWhile_eq
  obtain ⟨rfl, hline, hne, hrun, -⟩ := h
  obtain ⟨c, run, rfl⟩ := List.exists_cons_of_ne_nil hne
  have htake : (line ++ (c :: run ++ rest)).takeWhile (!endOfLine ·) = line := by
    rw [List.takeWhile_append_of_pos fun d hd => by simp [hline d hd]]
    simp [hrun c (by simp)]
  simp only [consume, htake]
  rw [if_neg (by simp), if_neg (by simp), List.drop_left, hdrop]

/-- The payload's lines are those of the scan, up to empty ones, whether or not the
incomplete one is kept. -/
theorem consume_keep (hfuel : p.length ≤ fuel) :
    (consume maxLineLen fuel p).1.filter (· ≠ []) = (splitLines [] p).1 ∧
      (consume maxLineLen fuel p).2 = keep maxLineLen (splitLines [] p).2 := by
  induction fuel generalizing p with
  | zero =>
    obtain rfl : p = [] := by simpa using hfuel
    exact ⟨rfl, by simp [consume, splitLines, keep]⟩
  | succ fuel ih =>
    by_cases hp : EolFree p
    · rw [splitLines_eolFree hp, consume_eolFree hfuel hp]
      exact ⟨rfl, rfl⟩
    · obtain ⟨line, run, rest, hfirst⟩ := exists_firstLine hp
      have hlen := hfirst.length_rest
      obtain ⟨hlines, hkept⟩ := @ih rest (by omega)
      rw [hfirst.splitLines_eq, consume_firstLine hfirst]
      refine ⟨?_, hkept⟩
      rw [← hlines]
      by_cases hl : line = [] <;> simp [hl]

theorem consume_splitLines (hfuel : p.length ≤ fuel)
    (hfit : (splitLines [] p).2.length ≤ maxLineLen) :
    (consume maxLineLen fuel p).1.filter (· ≠ []) = (splitLines [] p).1 ∧
      (consume maxLineLen fuel p).2 = (splitLines [] p).2 := by
  obtain ⟨hlines, hkept⟩ := @consume_keep maxLineLen _ _ hfuel
  exact ⟨hlines, hkept.trans (keep_of_le hfit)⟩

/-- A payload delivers a line exactly if it holds an end of line. -/
theorem consume_eq_nil (hfuel : p.length ≤ fuel) :
    (consume maxLineLen fuel p).1 = [] ↔ EolFree p := by
  constructor
  · intro h
    by_contra hp
    obtain ⟨line, run, rest, hfirst⟩ := exists_firstLine hp
    have hlen := hfirst.length_rest
    obtain ⟨fuel, rfl⟩ : ∃ n, fuel = n + 1 := ⟨fuel - 1, by omega⟩
    rw [consume_firstLine hfirst] at h
    cases h
  · intro hp
    rw [consume_eolFree hfuel hp]

/-- The last line delivered is empty if nothing but end-of-line characters
stands in front of it. -/
theorem consume_getLast (hfuel : p.length ≤ fuel)
    (hfit : (splitLines [] p).2.length ≤ maxLineLen) :
    (consume maxLineLen fuel p).1.getLast? = some [] ↔ LastRun p := by
  induction fuel generalizing p with
  | zero =>
    obtain rfl : p = [] := by simpa using hfuel
    exact iff_of_false (by simp [consume]) EolFree.nil.not_lastRun
  | succ fuel ih =>
    by_cases hp : EolFree p
    · rw [(consume_eq_nil hfuel).mpr hp]
      exact iff_of_false (by simp) hp.not_lastRun
    · obtain ⟨line, run, rest, hfirst⟩ := exists_firstLine hp
      have hlen := hfirst.length_rest
      rw [hfirst.splitLines_eq] at hfit
      rw [consume_firstLine hfirst, hfirst.lastRun_iff]
      by_cases hrest : EolFree rest
      · have hnil : (consume maxLineLen fuel rest).1 = [] :=
          (consume_eq_nil (by omega)).mpr hrest
        simp [hnil, hrest]
      · have hne : (consume maxLineLen fuel rest).1 ≠ [] := fun h =>
          hrest ((consume_eq_nil (by omega)).mp h)
        have hlast : ¬ LastRun rest := hfirst.not_lastRun_rest
        rw [List.getLast?_cons_of_ne_nil hne, ih (by omega) hfit]
        exact iff_of_false hlast fun h => hrest h.2

-- ---------------------------------------------------------------------------
-- A sequence of reads
-- ---------------------------------------------------------------------------

/-- The chunks are what successive reads may return: each brings something, and
no more than it has room for. -/
def Reads (b : ReadBuffer maxLineLen) : List Text → Prop
  | [] => True
  | chunk :: chunks => chunk.length ≤ b.remainingCapacity ∧
    match b.fill chunk with
    | none => False
    | some b => Reads b.consumeLines.2 chunks

instance decidableReads : ∀ (b : ReadBuffer maxLineLen) chunks, Decidable (b.Reads chunks)
  | _, [] => isTrue trivial
  | b, chunk :: chunks => by
    unfold Reads
    cases b.fill chunk with
    | none => exact inferInstanceAs (Decidable (_ ∧ False))
    | some b =>
      have := decidableReads b.consumeLines.2 chunks
      exact inferInstanceAs (Decidable (_ ∧ b.consumeLines.2.Reads chunks))

variable {b : ReadBuffer maxLineLen} {chunk : Text} {chunks : List Text}

theorem reads_cons (h : b.Reads (chunk :: chunks)) : chunk ≠ [] ∧
    ∃ b', b.fill chunk = some b' ∧ b'.payload = b.payload ++ chunk ∧ b'.consumeLines.2.Reads chunks := by
  obtain ⟨hlen, h⟩ := h
  have htake : chunk.take b.remainingCapacity = chunk := List.take_of_length_le hlen
  rcases hfill : b.fill chunk with _ | b'
  · simp [hfill] at h
  · simp only [hfill] at h
    unfold fill at hfill
    simp only [htake] at hfill
    split at hfill
    · cases hfill
    · rename_i hne
      obtain rfl := Option.some.inj hfill
      exact ⟨hne, _, rfl, rfl, h⟩

/-- What one read leaves to the reads after it. -/
structure ReadStep (b : ReadBuffer maxLineLen) (chunk : Text) (chunks : List Text)
    (lines : List Text) (b' : ReadBuffer maxLineLen) : Prop where
  receive_eq : receive b (chunk :: chunks) = (lines ++ (receive b' chunks).1, (receive b' chunks).2)
  filter_eq : lines.filter (· ≠ []) = (splitLines [] (b.payload ++ chunk)).1
  payload_eq : b'.payload = (splitLines [] (b.payload ++ chunk)).2
  eq_nil : lines = [] ↔ EolFree (b.payload ++ chunk)
  getLast : lines.getLast? = some [] ↔ LastRun (b.payload ++ chunk)
  fit : LinesFit maxLineLen (b'.payload ++ chunks.flatten)
  reads : b'.Reads chunks

theorem exists_readStep (hfit : LinesFit maxLineLen (b.payload ++ (chunk :: chunks).flatten))
    (h : b.Reads (chunk :: chunks)) : ∃ lines b', ReadStep b chunk chunks lines b' := by
  obtain ⟨-, b₁, hfill, hpay, hreads⟩ := reads_cons h
  have hkept : (splitLines [] b₁.payload).2.length ≤ maxLineLen := by
    refine hfit _ ?_ (eolFree_kept _)
    rw [List.flatten_cons, ← List.append_assoc, ← hpay]
    exact (kept_suffix _).isInfix.trans (List.prefix_append _ _).isInfix
  obtain ⟨hlines, hpayload⟩ := consume_splitLines le_rfl hkept
  refine ⟨b₁.consumeLines.1, b₁.consumeLines.2, ?_, ?_, ?_, ?_, ?_, ?_, hreads⟩
  · simp [receive, hfill]
  · rw [← hpay]; exact hlines
  · rw [← hpay]; exact hpayload
  · rw [← hpay]; exact consume_eq_nil le_rfl
  · rw [← hpay]; exact consume_getLast le_rfl hkept
  · refine hfit.infix ?_
    rw [show b₁.consumeLines.2.payload = _ from hpayload, List.flatten_cons, ← List.append_assoc,
      ← hpay]
    exact (List.suffix_append_self_iff.mpr (kept_suffix _)).isInfix

/-- The lines delivered are those of the stream, up to empty ones. -/
theorem receive_splitLines (hp : EolFree b.payload)
    (hfit : LinesFit maxLineLen (b.payload ++ chunks.flatten)) (h : b.Reads chunks) :
    (receive b chunks).1.filter (· ≠ []) = (splitLines b.payload chunks.flatten).1 := by
  induction chunks generalizing b with
  | nil => rfl
  | cons chunk chunks ih =>
    obtain ⟨lines, b', hstep⟩ := exists_readStep hfit h
    have hp' : EolFree b'.payload := hstep.payload_eq ▸ eolFree_kept _
    rw [hstep.receive_eq, List.filter_append, ih hp' hstep.fit hstep.reads, hstep.filter_eq,
      hstep.payload_eq, List.flatten_cons, splitLines_append, splitLines_append,
      splitLines_eolFree hp]
    rfl

/-- A line is delivered exactly if the stream holds an end of line. -/
theorem receive_eq_nil (hp : EolFree b.payload)
    (hfit : LinesFit maxLineLen (b.payload ++ chunks.flatten)) (h : b.Reads chunks) :
    (receive b chunks).1 = [] ↔ EolFree chunks.flatten := by
  induction chunks generalizing b with
  | nil => exact iff_of_true rfl .nil
  | cons chunk chunks ih =>
    obtain ⟨lines, b', hstep⟩ := exists_readStep hfit h
    have hp' : EolFree b'.payload := hstep.payload_eq ▸ eolFree_kept _
    rw [hstep.receive_eq, List.append_eq_nil_iff, hstep.eq_nil, ih hp' hstep.fit hstep.reads,
      List.flatten_cons, eolFree_append, eolFree_append]
    simp [hp]

/-- The last line delivered is empty if a cut falls within the last run of
end-of-line characters, or the stream begins with that run. -/
theorem receive_getLast (hp : EolFree b.payload)
    (hfit : LinesFit maxLineLen (b.payload ++ chunks.flatten)) (h : b.Reads chunks) :
    (receive b chunks).1.getLast? = some [] ↔ ∃ before after, chunks = before ++ after ∧
      (splitLines b.payload before.flatten).2 = [] ∧ LastRun after.flatten := by
  induction chunks generalizing b with
  | nil =>
    refine iff_of_false (by simp [receive]) ?_
    rintro ⟨before, after, heq, -, hlast⟩
    obtain ⟨-, rfl⟩ := List.append_eq_nil_iff.mp heq.symm
    exact EolFree.nil.not_lastRun hlast
  | cons chunk chunks ih =>
    obtain ⟨lines, b', hstep⟩ := exists_readStep hfit h
    have hp' : EolFree b'.payload := hstep.payload_eq ▸ eolFree_kept _
    have hnil := receive_eq_nil hp' hstep.fit hstep.reads
    rw [hstep.receive_eq]
    have hpay : b'.payload = (splitLines b.payload chunk).2 := by
      rw [hstep.payload_eq, splitLines_append, splitLines_eolFree hp]
      rfl
    by_cases hfree : EolFree chunks.flatten
    · rw [hnil.mpr hfree, List.append_nil, hstep.getLast]
      constructor
      · intro hlast
        have hpnil : b.payload = [] := hlast.eq_nil_of_append hp
        refine ⟨[], chunk :: chunks, rfl, hpnil, ?_⟩
        exact (lastRun_append_iff hfree).mpr (by simpa [hpnil] using hlast)
      · rintro ⟨before, after, heq, hkept, hlast⟩
        cases before with
        | nil =>
          obtain rfl : chunk :: chunks = after := heq
          have hpnil : b.payload = [] := hkept
          simpa [hpnil] using (lastRun_append_iff hfree).mp hlast
        | cons c before =>
          obtain ⟨rfl, rfl⟩ := List.cons_eq_cons.mp heq
          have hafter : EolFree after.flatten := fun c hc => hfree c (by simp_all)
          exact absurd hlast hafter.not_lastRun
    · rw [List.getLast?_append_of_ne_nil _ fun h => hfree (hnil.mp h), ih hp' hstep.fit hstep.reads]
      constructor
      · rintro ⟨before, after, rfl, hkept, hlast⟩
        refine ⟨chunk :: before, after, rfl, ?_, hlast⟩
        rw [List.flatten_cons, splitLines_append, ← hpay]
        exact hkept
      · rintro ⟨before, after, heq, hkept, hlast⟩
        cases before with
        | nil =>
          obtain rfl : chunk :: chunks = after := heq
          have hpnil : b.payload = [] := hkept
          obtain ⟨heol, hlast'⟩ := LastRun.of_append hlast hfree
          refine ⟨[], chunks, rfl, ?_, hlast'⟩
          rw [hpay, hpnil, splitLines_run (reads_cons h).1 heol]
          rfl
        | cons c before =>
          obtain ⟨rfl, rfl⟩ := List.cons_eq_cons.mp heq
          refine ⟨before, after, rfl, ?_, hlast⟩
          rw [List.flatten_cons, splitLines_append, ← hpay] at hkept
          exact hkept

end ReadBuffer

-- ---------------------------------------------------------------------------
-- The status after the stream
-- ---------------------------------------------------------------------------

namespace Status

variable {scan : Scanner} {s : Status} {l : Text} {ls ls' : List Text}

theorem applyLines_append : s.applyLines scan (ls ++ ls') = (s.applyLines scan ls).applyLines scan ls' :=
  List.foldl_append

/-- In front of a line the empty ones do not count. -/
theorem applyLine_applyLines (ls : List Text) : (s.applyLines scan ls).applyLine scan l =
    (s.applyLines scan (ls.filter (· ≠ []))).applyLine scan l := by
  induction ls using List.reverseRecOn generalizing l with
  | nil => rfl
  | append_singleton ls x ih =>
    rcases eq_or_ne x [] with rfl | hx
    · rw [applyLines_append, List.filter_append]
      simpa [applyLine_applyLine_empty] using ih
    · rw [applyLines_append, List.filter_append]
      simp [hx, applyLines_append, ih]

/-- After all lines at most the last one counts besides those with content. -/
theorem applyLines_filter (hne : ls.filter (· ≠ []) ≠ []) : s.applyLines scan ls =
    if ls.getLast? = some [] then (s.applyLines scan (ls.filter (· ≠ []))).heard
    else s.applyLines scan (ls.filter (· ≠ [])) := by
  induction ls using List.reverseRecOn with
  | nil => exact absurd rfl hne
  | append_singleton ls x _ =>
    have hlast : s.applyLines scan (ls ++ [x]) = (s.applyLines scan ls).applyLine scan x :=
      applyLines_append
    rw [hlast, applyLine_applyLines]
    rcases eq_or_ne x [] with rfl | hx
    · have hfilter : (ls ++ [[]]).filter (· ≠ []) = ls.filter (· ≠ []) := by simp
      rw [hfilter] at hne ⊢
      obtain ⟨front, y, hy⟩ := List.eq_nil_or_concat _ |>.resolve_left hne
      have hfront : s.applyLines scan (front ++ [y]) = (s.applyLines scan front).applyLine scan y :=
        applyLines_append
      rw [hy, List.concat_eq_append, hfront, applyLine_empty_applyLine]
      simp
    · have hfilter : (ls ++ [x]).filter (· ≠ []) = ls.filter (· ≠ []) ++ [x] := by simp [hx]
      rw [hfilter, applyLines_append]
      simp [hx]

/-- Where nothing but empty lines arrive, the first one counts. -/
theorem applyLines_of_filter_eq_nil (h : ls.filter (· ≠ []) = []) :
    s.applyLines scan ls = if ls = [] then s else s.applyLine scan [] := by
  induction ls using List.reverseRecOn with
  | nil => rfl
  | append_singleton ls x _ =>
    rw [List.filter_append, List.append_eq_nil_iff] at h
    obtain rfl : x = [] := by simpa using h.2
    have hlast : s.applyLines scan (ls ++ [[]]) = (s.applyLines scan ls).applyLine scan [] :=
      applyLines_append
    rw [hlast, applyLine_applyLines, h.1]
    simp

/-- The status is powered down after the lines exactly if the last one says so. -/
theorem poweredDown_applyLines (hl : ls.getLast? = some l) :
    (s.applyLines scan ls).poweredDown = decide (l = linePoweredDown) := by
  obtain ⟨front, rfl⟩ := List.getLast?_eq_some_iff.mp hl
  have hlast : s.applyLines scan (front ++ [l]) = (s.applyLines scan front).applyLine scan l :=
    applyLines_append
  rw [hlast, applyLine_eq, Bool.or_false]

end Status

namespace ReadBuffer

open Classical

variable {maxLineLen : Nat} {scan : Scanner} {s : Status} {stream : Text}
  {chunks chunks₁ chunks₂ : List Text}

theorem kept_eq_nil_iff (t : Text) :
    (splitLines [] t).2 = [] ↔ t = [] ∨ ∃ c ∈ t.getLast?, endOfLine c = true := by
  rw [kept_eq, List.rtakeWhile_eq_nil_iff]
  rcases List.eq_nil_or_concat t with rfl | ⟨t, c, rfl⟩
  · simp
  · simp

/-- With a line in the stream, the last one delivered is empty exactly if a cut
falls within the last run of end-of-line characters. -/
theorem getLast_iff_cutInLastRun (hreads : Reads ({} : ReadBuffer maxLineLen) chunks)
    (hfit : LinesFit maxLineLen chunks.flatten) (hlines : completedLines chunks.flatten ≠ []) :
    (receive ({} : ReadBuffer maxLineLen) chunks).1.getLast? = some [] ↔ CutInLastRun chunks := by
  rw [receive_getLast .nil (by simpa using hfit) hreads]
  constructor
  · rintro ⟨before, after, rfl, hkept, hlast⟩
    rcases (kept_eq_nil_iff _).mp hkept with hnil | hend
    · exfalso
      obtain ⟨run, cur, heq, hne, hrun, hcur⟩ := hlast
      apply hlines
      simp [completedLines, hnil, heq, splitLines_append, splitLines_run hne hrun,
        splitLines_eolFree hcur]
    · exact ⟨before, after, rfl, hend, hlast⟩
  · rintro ⟨before, after, rfl, hend, hlast⟩
    exact ⟨before, after, rfl, (kept_eq_nil_iff _).mpr (.inr hend), hlast⟩

/-- All that the cuts may change of the status the stream leaves. -/
theorem applyLines_receive (hreads : Reads ({} : ReadBuffer maxLineLen) chunks)
    (hfit : LinesFit maxLineLen chunks.flatten) (hne : completedLines chunks.flatten ≠ []) :
    s.applyLines scan (receive ({} : ReadBuffer maxLineLen) chunks).1 =
      if CutInLastRun chunks then (s.applyLines scan (completedLines chunks.flatten)).heard
      else s.applyLines scan (completedLines chunks.flatten) := by
  have hlines : (receive ({} : ReadBuffer maxLineLen) chunks).1.filter (· ≠ []) =
      completedLines chunks.flatten := receive_splitLines .nil (by simpa using hfit) hreads
  have hcut := getLast_iff_cutInLastRun hreads hfit hne
  rw [Status.applyLines_filter (by rwa [hlines]), hlines]
  exact if_congr hcut rfl rfl

/-- The status owes nothing to the cuts unless the last line announces the
power-down and only one of the splittings cuts through the characters that end it. -/
theorem status_eq_iff
    (h₁ : Reads ({} : ReadBuffer maxLineLen) chunks₁)
    (h₂ : Reads ({} : ReadBuffer maxLineLen) chunks₂)
    (hstream₁ : chunks₁.flatten = stream) (hstream₂ : chunks₂.flatten = stream)
    (hfit : LinesFit maxLineLen stream) :
    s.applyLines scan (receive ({} : ReadBuffer maxLineLen) chunks₁).1 =
        s.applyLines scan (receive ({} : ReadBuffer maxLineLen) chunks₂).1 ↔
      ¬ ((completedLines stream).getLast? = some linePoweredDown ∧
        ¬ (CutInLastRun chunks₁ ↔ CutInLastRun chunks₂)) := by
  subst hstream₁
  rcases eq_or_ne (completedLines chunks₁.flatten) [] with hnil | hne
  · have hempty : (receive ({} : ReadBuffer maxLineLen) chunks₁).1 = [] ↔
        (receive ({} : ReadBuffer maxLineLen) chunks₂).1 = [] := by
      rw [receive_eq_nil .nil (by simpa using hfit) h₁,
        receive_eq_nil .nil (by simpa [hstream₂] using hfit) h₂, hstream₂]
    have hlines₁ : _ = completedLines _ := receive_splitLines .nil (by simpa using hfit) h₁
    have hlines₂ : _ = completedLines _ :=
      receive_splitLines .nil (by simpa [hstream₂] using hfit) h₂
    rw [hstream₂, hnil] at hlines₂
    rw [Status.applyLines_of_filter_eq_nil (hlines₁.trans hnil),
      Status.applyLines_of_filter_eq_nil hlines₂]
    simp [hempty, hnil]
  · obtain ⟨y, hy⟩ : ∃ y, (completedLines chunks₁.flatten).getLast? = some y :=
      ⟨_, List.getLast?_eq_some_getLast hne⟩
    have hdown : (s.applyLines scan (completedLines chunks₁.flatten)).poweredDown = _ :=
      Status.poweredDown_applyLines hy
    have hafter₂ : s.applyLines scan (receive _ chunks₂).1 = _ :=
      applyLines_receive h₂ (hstream₂ ▸ hfit) (hstream₂ ▸ hne)
    rw [hstream₂] at hafter₂
    rw [applyLines_receive h₁ hfit hne, hafter₂, hy]
    have hiff := Status.heard_eq_iff (s := s.applyLines scan (completedLines chunks₁.flatten))
    rw [hdown] at hiff
    by_cases hc₁ : CutInLastRun chunks₁ <;> by_cases hc₂ : CutInLastRun chunks₂
    · simp [hc₁, hc₂]
    · simp [hc₁, hc₂, hiff]
    · simp [hc₁, hc₂, eq_comm.trans hiff]
    · simp [hc₁, hc₂]

theorem linesFit_of_length (h : stream.length ≤ maxLineLen) : LinesFit maxLineLen stream :=
  fun _ ht _ => ht.length_le.trans h

/-- A cut between the two characters behind an `OK` makes no difference. -/
theorem status_eq_ok :
    ({ qcfg := [] } : Status).applyLines plainScanner
        (receive ({} : ReadBuffer 64) ["OK\r".toList, "\n".toList]).1 =
      ({ qcfg := [] } : Status).applyLines plainScanner
        (receive ({} : ReadBuffer 64) ["OK\r\n".toList]).1 := by
  refine (status_eq_iff (by decide) (by decide) rfl rfl
    (linesFit_of_length (by decide))).mpr ?_
  rintro ⟨hlast, -⟩
  revert hlast
  decide

/-- The modem announces its power-down, and only the line feed comes late. -/
theorem status_depends_on_cut :
    ¬ ∀ (scan : Scanner) (s : Status) (chunks₁ chunks₂ : List Text),
      Reads ({} : ReadBuffer 64) chunks₁ → Reads ({} : ReadBuffer 64) chunks₂ →
      chunks₁.flatten = chunks₂.flatten → LinesFit 64 chunks₁.flatten →
      s.applyLines scan (receive ({} : ReadBuffer 64) chunks₁).1 =
        s.applyLines scan (receive ({} : ReadBuffer 64) chunks₂).1 := by
  intro h
  have heq := h plainScanner { qcfg := [] } ["POWERED DOWN\r\n".toList]
    ["POWERED DOWN\r".toList, "\n".toList] (by decide) (by decide) rfl
    (linesFit_of_length (by decide))
  have hdown := congrArg Status.poweredDown heq
  revert hdown
  decide

end ReadBuffer

end Allwinner.Modem
