import Allwinner.Scp.Interpreter

/-!
# The memory behind the native code

The messages, the static dictionary and the variables as the assembler lays them out, with
the values the main program gives the variables before it evaluates the application. A
request is a text in the input buffer that the parse variables name.
-/

namespace Allwinner.Scp

open Library Memory

-- ---------------------------------------------------------------------------
-- The static dictionary
-- ---------------------------------------------------------------------------

/-- The `DENTRY`s in the order of `scp.s`, with the immediate flag. -/
def dentries : List (String × Label × Bool) :=
  [("depth", .depth, false), ("words", .words, false), ("execute", .execute, false),
   ("reset", .reset, false), ("'", .tick, false), ("drop", .drop, false), ("dup", .dup, false),
   ("swap", .swap, false), ("over", .«over», false), ("rot", .rot, false),
   ("2drop", .twodrop, false), ("2dup", .twodup, false), ("?dup", .qdup, false),
   (">r", .tor, false), ("r@", .rat, false), ("r>", .rfrom, false), ("negate", .negate, false),
   ("abs", .abs, false), ("not", .not, false), ("and", .and, false), ("or", .or, false),
   ("xor", .xor, false), ("um+", .umplus, false), ("+", .plus, false), ("-", .sub, false),
   ("um/mod", .umdiv_mod, false), ("um*", .ummul, false), ("*", .mul, false), ("1+", .inc, false),
   ("base", .base, false), ("decimal", .decimal, false), ("hex", .hex, false),
   ("emit", .emit, false), ("space", .space, false), ("cr", .cr, false), ("count", .count, false),
   ("type", .type, false), ("hold", .hold, false), (".", .dot, false), ("u.", .udot, false),
   ("<#", .fmt_start, false), ("#>", .fmt_end, false), ("#", .fmt_digit, false),
   ("#s", .fmt_number, false), ("sign", .fmt_sign, false), (".s", .show_stack, false),
   ("within", .within, false), ("0<", .zless, false), ("u<", .ult, false), ("<", .slt, false),
   ("=", .equal, false), ("cell", .cell, false), ("cells", .cells, false),
   ("cmove", .cmove, false), ("aligned", .aligned, false), ("!", .store, false),
   ("@", .«at», false), ("c!", .cstore, false), ("c@", .cat, false), ("cell+", .cellinc, false),
   ("cell-", .celldec, false),
   ("here", .here, false), ("variable", .«variable», false), ("xtalit", .xtalit, false),
   (":", .colon, false), (";", .semicolon, true), ("[", .state_interpret, true),
   ("]", .state_compile, true), ("evaluate", .evaluate, false), ("do_uart", .do_uart, false),
   ("emit_uart", .emit_uart, false), ("reset_tib", .reset_tib, false),
   ("'mainloop", .mainloop_xt, false), ("'emit", .emit_xt, false), ("IF", .compile_if, true),
   ("THEN", .compile_then, true), ("BEGIN", .compile_begin, true), ("AGAIN", .compile_again, true),
   ("UNTIL", .compile_until, true), ("FOR", .compile_for, true), ("NEXT", .compile_next, true),
   ("AFT", .compile_aft, true)]

/-- The entries from `a` on. Each `DENTRY` is aligned to a cell. -/
def placed : Cell → List (String × Label × Bool) → List Dentry
  | _, [] => []
  | a, (name, xt, immediate) :: ds =>
    ⟨a, xt.offset ||| if immediate then 1 else 0, ascii name⟩ ::
      placed (cell_align (a + 7 + BitVec.ofNat 32 name.length)) ds

def static_dictionary : List Dentry := (placed 0x10cb8 dentries).reverse

def linked : Cell → List Dentry → List (Cell × List Byte)
  | _, [] => []
  | link, d :: ds => (d.addr, d.image link) :: linked d.addr ds

theorem chain_linked {ds older : List Dentry} (holder : Chain m link older)
    (hspot : ∀ d ∈ ds, Spot 4 d.addr ∧ Span d.addr (7 + d.name.length))
    (h : ∀ s ∈ linked link ds, bytes m s.1 s.2.length = s.2) :
    Chain m ((ds.getLast?.map Dentry.addr).getD link) (ds.reverse ++ older) := by
  induction ds generalizing link older with
  | nil => exact holder
  | cons d ds ih =>
    obtain ⟨hd, hspan⟩ := hspot d (List.mem_cons_self ..)
    obtain ⟨hin, hlink⟩ := Dentry.in_of_image hd hspan (h _ (List.mem_cons_self ..))
    have hchain : Chain m d.addr (d :: older) := ⟨rfl, hin, hlink ▸ holder⟩
    have hrest := ih hchain (fun e he => hspot e (List.mem_cons_of_mem _ he)) fun s hs => h s (List.mem_cons_of_mem _ hs)
    rw [List.reverse_cons, List.append_assoc, List.getLast?_cons]
    simpa using hrest

-- ---------------------------------------------------------------------------
-- Messages and variables
-- ---------------------------------------------------------------------------

def Label.text_segment (l : Label) (s : String) : Cell × List Byte :=
  (l.addr + 4, BitVec.ofNat 8 s.length :: ascii s)

def message_segments : List (Cell × List Byte) :=
  Label.all.filterMap fun l => l.message.map l.text_segment

def Label.value_segment (l : Label) (v : Cell) : Cell × List Byte := (l.storage, bytes32 v)

/-- The end of the dictionary, and what the main program sets. -/
def first_variables : List (Label × Cell) :=
  [(.cp, bss_end), (.base, 10), (.hld, 0), (.latest_dentry, 0),
   (.eval_xt, Label.interpret_one_word.offset.setWidth 32),
   (.emit_xt, Label.emit_uart.offset.setWidth 32), (.mainloop_xt, Label.do_uart.offset.setWidth 32)]

def last_variables : List (Label × Cell) :=
  [(.current, 0x11080), (.parse_ptr, 0), (.parse_len, 0), (.tib_complete, 0)]

def variable_segments (vs : List (Label × Cell)) : List (Cell × List Byte) :=
  vs.map fun v => v.1.value_segment v.2

def segments : List (Cell × List Byte) :=
  variable_segments first_variables ++ (message_segments ++
    (linked 0 (placed 0x10cb8 dentries) ++ variable_segments last_variables))

/-- The memory the application is evaluated in. -/
def image : Memory 32 := load (fun _ => 0) segments

theorem segments_ascend :
    segments.Pairwise fun s t => s.1.toNat + s.2.length ≤ t.1.toNat := by decide +kernel

theorem segments_fit : ∀ s ∈ segments, s.1.toNat + s.2.length ≤ 2 ^ 32 := by decide +kernel

theorem image_segment {s : Cell × List Byte} (hs : s ∈ segments) :
    bytes image s.1 s.2.length = s.2 := bytes_load segments_ascend segments_fit hs

theorem image_variable {l : Label} {v : Cell} (h : (l, v) ∈ first_variables ++ last_variables) :
    load32 image l.storage = v := by
  have hmem : l.value_segment v ∈ segments := by
    obtain h | h := List.mem_append.mp h
    · exact List.mem_append_left _ (List.mem_map.mpr ⟨_, h, rfl⟩)
    · exact List.mem_append_right _ (List.mem_append_right _ (List.mem_append_right _
        (List.mem_map.mpr ⟨_, h, rfl⟩)))
  exact load32_of_bytes (image_segment hmem)

theorem image_messages : Messages image := by
  intro l s hs
  have hmem : l.text_segment s ∈ message_segments :=
    List.mem_filterMap.mpr ⟨l, Label.mem_all l, by rw [hs]; rfl⟩
  have htext := image_segment (List.mem_append_right _ (List.mem_append_left _ hmem))
  obtain ⟨hcount, hchars⟩ := List.cons.inj htext
  refine ⟨hcount, ?_⟩
  rwa [show (ascii s).length = s.length from (List.length_map _).trans s.length_toList] at hchars

theorem static_placed : ∀ d ∈ placed 0x10cb8 dentries,
    Spot 4 d.addr ∧ Span d.addr (7 + d.name.length) := by decide +kernel

theorem image_entries : Entries image static_dictionary := by
  have hcurrent : load32 image Label.current.storage = 0x11080 :=
    image_variable (List.mem_append_right _ (List.mem_cons_self ..))
  have hlast : ((placed 0x10cb8 dentries).getLast?.map Dentry.addr).getD 0 = 0x11080 := by
    decide +kernel
  rw [Entries, hcurrent, ← hlast, static_dictionary, ← List.append_nil (List.reverse _)]
  refine chain_linked rfl static_placed fun s hs => image_segment ?_
  exact List.mem_append_right _ (List.mem_append_right _ (List.mem_append_left _ hs))

theorem static_cells : ∀ d ∈ static_dictionary, d.addr.toNat + (7 + d.name.length) ≤ 0x1108c ∧
    0x10cb8 ≤ d.addr.toNat := by decide +kernel

-- ---------------------------------------------------------------------------
-- Requests
-- ---------------------------------------------------------------------------

/-- The characters of the mailbox input buffer. -/
def mib_text : Cell := 0x13c04

/-- The input buffer holds `s`. -/
def with_text (s : List Byte) : Store := ⟨storeBytes image mib_text s, ⟨[], [], []⟩⟩

/-- It is parsed from its start. -/
def request (s : List Byte) : Store :=
  (with_text s).parsing mib_text (BitVec.ofNat 32 s.length)

def request_cells : Set Nat := parse_cells ∪ Set.Ico mib_text.toNat sram_hi

theorem request_cells_bounds (h : n ∈ request_cells) :
    (70244 ≤ n ∧ n < 70256) ∨ (0x13c04 ≤ n ∧ n < sram_hi) := by
  obtain h | h := h
  · exact .inl (parse_cells_bounds h)
  · exact .inr h

section Requests

variable {s : List Byte}

theorem request_keeps (hs : s.length ≤ 1020) : Keeps request_cells image (request s).mem := by
  have htext : mib_text.toNat = 80900 := by decide
  have hchars : Keeps _ image (storeBytes image mib_text s) := storeBytes_keeps (by omega)
  refine (hchars.union (parsing_keeps (with_text s) mib_text (BitVec.ofNat 32 s.length))).mono ?_
  rintro n (⟨_, _⟩ | h)
  · exact .inr ⟨by omega, by unfold sram_hi; omega⟩
  · exact .inl h

theorem ptr_request : ptr (request s).mem = mib_text := ptr_parsing ..

theorem len_request (hs : s.length ≤ 1020) : (len (request s).mem).toNat = s.length := by
  rw [request, len_parsing, BitVec.toNat_ofNat]
  omega

theorem text_request (hs : s.length ≤ 1020) : text (request s).mem = s := by
  have htext : mib_text.toNat = 80900 := by decide
  have hkeeps : Keeps parse_cells (storeBytes image mib_text s) (request s).mem :=
    parsing_keeps (with_text s) _ _
  rw [text, ptr_request, len_request hs, hkeeps.bytes (by omega) fun k hlo _ hk => ?_]
  · exact bytes_storeBytes (by omega)
  · have := (parse_cells_bounds hk).2
    omega

theorem consumed_request (hs : s.length ≤ 1020) : Consumed mib_text s 0 (request s).mem := by
  refine ⟨ptr_request.trans (BitVec.add_zero _).symm, len_request hs, ?_⟩
  have htext := text_request hs
  rwa [text, ptr_request, len_request hs] at htext

/-- The variables of the interpreter are as the main program has set them. -/
theorem variable_request {l : Label} {v : Cell} (hs : s.length ≤ 1020) (h : (l, v) ∈ first_variables) :
    load32 (request s).mem l.storage = v := by
  have hlow : ∀ x ∈ first_variables, x.1.storage.toNat + 4 ≤ 70244 := by decide
  have hl := hlow _ h
  dsimp only at hl
  refine (Label.kept (request_keeps hs) ?_ fun k hk hmem => ?_).trans
    (image_variable (List.mem_append_left _ h))
  · omega
  · have := request_cells_bounds hk
    have := hmem.2
    omega

theorem mib_apart (hs : s.length ≤ 1020) : Apart parse_cells mib_text s.length := by
  intro i hi hmem
  have htext : mib_text.toNat = 80900 := by decide
  rw [toNat_add_ofNat (by omega)] at hmem
  have := (parse_cells_bounds hmem).2
  omega

end Requests

/-- The interpreter is ready for every request that fits the input buffer. -/
theorem interpretable_request [Board] [Sram] {s : List Byte} (hs : s.length ≤ 1020) :
    Interpretable uart static_dictionary (request s) := by
  have hkeeps := request_keeps hs
  have htext : mib_text.toNat = 80900 := by decide
  have huart : ∀ n ∈ request_cells, n ∉ (uart).footprint := by
    intro n hn hmem
    have hhi := hmem.2
    rw [show Label.emit_xt.storage.toNat = 68124 by decide] at hhi
    have := request_cells_bounds hn
    omega
  have hdentries : ∀ d ∈ static_dictionary, ∀ n ∈ request_cells, n ∉ d.cells := by
    intro d hd n hn hmem
    have := (static_cells d hd).1
    have := hmem.2
    have := request_cells_bounds hn
    omega
  refine ⟨⟨?_, ?_, ?_⟩, ?_, ?_, ?_, fun n hn => huart n (.inl hn), fun d hd n hn => hdentries d hd n (.inl hn)⟩
  · have hready : (uart).Ready ⟨image, ⟨[], [], []⟩⟩ := image_variable (by decide)
    exact (uart).frame hready (hkeeps.mono huart)
  · refine image_messages.kept hkeeps fun n hn hmem => ?_
    have := hmem.2
    have := request_cells_bounds hn
    omega
  · intro n hn hmem
    have hlo := hn.2
    rw [show Label.emit_xt.storage.toNat = 68124 by decide] at hlo
    have := hmem.1
    omega
  · refine image_entries.kept hkeeps (fun n hn hmem => ?_) hdentries
    have := request_cells_bounds hn
    have hlo := hmem.1
    have hhi := hmem.2
    rw [show Label.current.storage.toNat = 69788 by decide] at hlo hhi
    omega
  · rw [ptr_request, len_request hs]
    exact (Span.behind (by decide) (by unfold sram_hi; omega)).readable
  · rw [ptr_request, len_request hs]
    intro i hi hmem
    rw [toNat_add_ofNat (by omega)] at hmem
    obtain hmem | hmem := hmem
    · have := parse_cells_bounds hmem
      omega
    · have hhi := hmem.2
      rw [show Label.emit_xt.storage.toNat = 68124 by decide] at hhi
      omega

end Allwinner.Scp
