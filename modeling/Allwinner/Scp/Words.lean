import Allwinner.Scp.Machine

/-!
# The execution tokens of the SCP firmware

The lists of `scp.s`, token by token and in the order of the source. Local labels are
marks within a list, and a branch names the next or the previous mark of its number.
-/

namespace Allwinner.Scp

/-- The execution tokens, and the lists at `_main`, `_error_*` and `_reset`. -/
inductive Label where
  | main | error_dstack_overflow | error_dstack_underflow | error_rstack_overflow
  | error_rstack_underflow | error_unaligned_access | error_bus_access | reset_list | drop | dup
  | swap | «over» | qdup | tor | rat | tworat | rfrom | zless | equal | ult | slt | dolit | xtalit
  | branch | qbranch | next | umplus | and | or | xor | store | «at» | cstore | cat | xtastore
  | xtaat | xta_aligned_store | rawdot | emit_uart | depth | exit | execute | reset | aligned
  | zero | one | two | nine | ten | sixteen | thirty_one | neg_one | true | false | bl_char
  | a_char | z_char | tab_char | cr_char | nl_char | bs_char | del_char | reset_char | zero_char
  | nine_char | minus_char | offset_9_a | pad | cell | stack_start | xt_base_ptr | app_start
  | app_bytes | cp_init | dolist_ptr | twodrop | twodup | rot | plus | not | inc | negate | sub
  | incvar | cellinc | celldec | cells | cell_aligned | xta_aligned | count | umdiv_mod | ummul
  | mul | within | abs | bytes_equal | ask_string_match | cmove | dovar | cp | base | hld
  | latest_dentry | eval_xt | emit_xt | mainloop_xt | state_compile | state_interpret
  | data_stack_error | return_stack_error | restart | emit | space | cr | hex | decimal | digit
  | extract | fmt_start | hold | fmt_digit | fmt_number | fmt_sign | fmt_end | type | signed_str
  | udot | dot | show_stack | domsg | msg_prompt | msg_reset | msg_hyphen | msg_quote | msg_colon
  | msg_data | msg_stack | msg_underflow | msg_overflow | msg_invalid | msg_bus | msg_access
  | msg_unaligned | msg_return | msg_unknown | msg_word | msg_missing | msg_token | msg_after
  | msg_tick | msg_variable | msg_name | current_init | current | dentry_name | dentry_xta
  | dentry_immediate | words | dentry_by_name | ask_newline | ask_space | ask_tab | ask_whitespace
  | ask_non_whitespace | scan | num_whitespace | num_non_whitespace | advance | skip_whitespace
  | ask_digit | ask_number | parse_ptr | parse_len | scan_one_word | interpret_one_word | tick
  | incr_one | incr_cell | xta_align_cp | cell_align_cp | advance_cp | compile_cell | compile_xta
  | compile_byte | compile_string | compile_exit | update_latest_dentry_xta
  | mark_latest_dentry_immediate | commit_latest_dentry | here | create_dentry | «variable»
  | colon | semicolon | compile_one_word | compile_qbranch | compile_branch | compile_if
  | compile_then | compile_begin | compile_again | compile_until | compile_for | compile_next
  | compile_aft | ask_key | tib_complete | tib | tib_capacity | handle_backspace | append_to_tib
  | handle_cr | matches_cr | matches_bs | matches_reset | handle_uart_char | handle_uart_input
  | try_exec_dentry | evaluate_one_word | evaluate | interpret_tib | show_prompt | reset_tib
  | try_eval_tib | do_uart
  deriving DecidableEq, Repr

/-- The next mark of a number, or the previous one. -/
inductive Ref where
  | f (n : Nat)
  | b (n : Nat)

inductive Tok where
  | xt (l : Label)
  /-- `dolit` and its number -/
  | lit (v : Cell)
  | xtalit (l : Label)
  | branch (r : Ref)
  | qbranch (r : Ref)
  | next (r : Ref)
  | branchTo (l : Label)
  | mark (n : Nat)

instance : Coe Label Tok := ⟨.xt⟩

def app_lo : Cell := 0x11782
def app_hi : Cell := 0x11efb

/-- `LAST_DENTRY` -/
def last_dentry : Cell := 0x11080

namespace Label

-- ---------------------------------------------------------------------------
-- Primitives
-- ---------------------------------------------------------------------------

def prim? : Label → Option Prim
  | drop => some .drop | dup => some .dup | swap => some .swap | «over» => some .«over»
  | qdup => some .qdup | tor => some .tor | rat => some .rat | tworat => some .tworat
  | rfrom => some .rfrom | zless => some .zless | equal => some .equal | ult => some .ult
  | slt => some .slt | dolit => some .dolit | xtalit => some .xtalit | branch => some .branch
  | qbranch => some .qbranch | next => some .next | umplus => some .umplus | and => some .and
  | or => some .or | xor => some .xor | store => some .store | «at» => some .«at»
  | cstore => some .cstore | cat => some .cat | xtastore => some .xtastore | xtaat => some .xtaat
  | xta_aligned_store => some .xta_aligned_store | rawdot => some .rawdot
  | emit_uart => some .emit_uart | depth => some .depth | exit => some .exit
  | execute => some .execute | reset => some .reset | aligned => some .aligned
  | ask_key => some .ask_key
  | _ => none

-- ---------------------------------------------------------------------------
-- Lists
-- ---------------------------------------------------------------------------

def XT (tokens : List Tok) : List Tok := tokens ++ [.xt exit]

/-- Line by line. -/
def LIST_XT (lines : List (List Tok)) : List Tok := lines.flatten

def CONST_XT (value : Cell) : List Tok := [.lit value, exit]

def VAR_XT : List Tok := [dovar]

def MSG_XT : List Tok := [domsg]

def list : Label → List Tok
  | zero => CONST_XT 0
  | one => CONST_XT 1
  | two => CONST_XT 2
  | nine => CONST_XT 9
  | ten => CONST_XT 10
  | sixteen => CONST_XT 16
  | thirty_one => CONST_XT 31
  | neg_one => CONST_XT (-1)
  | true => CONST_XT (-1)
  | false => CONST_XT 0
  | bl_char => CONST_XT 0x20
  | a_char => CONST_XT 0x61
  | z_char => CONST_XT 0x7a
  | tab_char => CONST_XT 9
  | cr_char => CONST_XT 13
  | nl_char => CONST_XT 0x0a
  | bs_char => CONST_XT 8
  | del_char => CONST_XT 127
  | reset_char => CONST_XT 18
  | zero_char => CONST_XT 0x30
  | nine_char => CONST_XT 0x39
  | minus_char => CONST_XT 0x2d
  | offset_9_a => CONST_XT (0x61 - 0x39 - 1)
  | pad => CONST_XT pad_hi
  | cell => CONST_XT CELL_BYTES
  | stack_start => CONST_XT (dstack_lo + 2 * CELL_BYTES)
  | xt_base_ptr => CONST_XT start
  | app_start => CONST_XT app_lo
  | app_bytes => CONST_XT (app_hi - app_lo)
  | cp_init => CONST_XT bss_end
  | dolist_ptr => CONST_XT 0x12c
  | twodrop => XT [drop, drop]
  | twodup => XT [«over», «over»]
  | rot => XT [tor, swap, rfrom, swap]
  | plus => XT [umplus, drop]
  | not => XT [neg_one, xor]
  | inc => XT [one, plus]
  | negate => XT [not, inc]
  | sub => XT [negate, plus]
  | incvar => XT [dup, «at», inc, swap, store]
  | cellinc => XT [cell, plus]
  | celldec => XT [cell, sub]
  | cells => XT [dup, plus, dup, plus]
  | cell_aligned => XT [cell, aligned]
  | xta_aligned => XT [two, aligned]
  | count => XT [dup, inc, swap, cat]
  | umdiv_mod => LIST_XT [
      [twodup, ult], [.qbranch (.f 1)], [negate], [thirty_one, tor], [.mark 2, tor], [dup, umplus],
      [tor, tor, dup, umplus], [rfrom, plus, dup], [rfrom, rat, swap], [tor, umplus], [rfrom, or],
      [.qbranch (.f 3)], [tor, drop], [inc, rfrom], [.branch (.f 4)], [.mark 3, drop],
      [.mark 4, rfrom], [.next (.b 2)], [drop, swap, exit], [.mark 1, drop, twodrop, neg_one, dup],
      [exit]]
  | ummul => LIST_XT [
      [zero, swap], [thirty_one, tor], [.mark 1, dup, umplus, tor, tor], [dup, umplus],
      [rfrom, plus], [rfrom], [.qbranch (.f 2)], [tor, «over», umplus, rfrom, plus],
      [.mark 2, .next (.b 1)], [rot, drop, exit]]
  | mul => XT [ummul, drop]
  | within => XT [«over», sub, tor, sub, rfrom, ult]
  | abs => LIST_XT [[dup, zless, .qbranch (.f 1), negate], [.mark 1, exit]]
  | bytes_equal => LIST_XT [
      [dup, zero, equal, not, .qbranch (.f 2)], [one, sub], [true], [swap, tor],
      [.mark 1, tor, twodup, cat, swap, cat, equal, rfrom, and], [tor, inc, swap, inc, rfrom],
      [.next (.b 1)], [swap, drop, swap, drop], [exit], [.mark 2, twodrop, drop, true, exit]]
  | ask_string_match => LIST_XT [
      [tor, swap, dup, cat, rfrom], [equal, .qbranch (.f 1)], [count, bytes_equal, exit],
      [.mark 1, twodrop, false, exit]]
  | cmove => LIST_XT [
      [qdup, .qbranch (.f 2)], [one, sub, tor], [.mark 1, tor, dup, cat], [rat, cstore], [inc],
      [rfrom, inc], [.next (.b 1)], [.mark 2, twodrop, exit]]
  | dovar => XT [rfrom, cell_aligned]
  | cp | base | hld | latest_dentry | eval_xt | emit_xt | mainloop_xt => VAR_XT
  | state_compile => XT [.xtalit compile_one_word, eval_xt, store]
  | state_interpret => XT [.xtalit interpret_one_word, eval_xt, store]
  | data_stack_error => XT [cr, msg_data, msg_hyphen, msg_stack, space]
  | return_stack_error => XT [cr, msg_return, msg_hyphen, msg_stack, space]
  | restart => XT [cr, .branchTo main]
  | emit => XT [emit_xt, «at», execute]
  | space => XT [bl_char, emit]
  | cr => XT [nl_char, emit, cr_char, emit]
  | hex => XT [sixteen, base, store]
  | decimal => XT [ten, base, store]
  | digit => XT [nine, «over», ult, offset_9_a, and, plus, zero_char, plus]
  | extract => XT [zero, swap, umdiv_mod, swap, digit]
  | fmt_start => XT [pad, hld, store]
  | hold => XT [hld, «at», one, sub, dup, hld, store, cstore]
  | fmt_digit => XT [base, «at», extract, hold]
  | fmt_number => LIST_XT [
      [.mark 1, fmt_digit, dup], [.qbranch (.f 2)], [.branch (.b 1)], [.mark 2, exit]]
  | fmt_sign => LIST_XT [[zless, .qbranch (.f 1)], [minus_char, hold], [.mark 1, exit]]
  | fmt_end => XT [drop, hld, «at», pad, «over», sub]
  | type => LIST_XT [
      [dup, .qbranch (.f 2)], [one, sub, tor], [.mark 1, dup, cat, emit], [inc], [.next (.b 1)],
      [drop, exit], [.mark 2, twodrop, exit]]
  | signed_str => XT [dup, tor, abs, fmt_start, fmt_number, rfrom, fmt_sign, fmt_end]
  | udot => XT [fmt_start, fmt_number, fmt_end, space, type]
  | dot => LIST_XT [
      [base, «at», ten, xor, .qbranch (.f 1)], [udot, exit],
      [.mark 1, signed_str, space, type, exit]]
  | show_stack => LIST_XT [
      [depth, .qbranch (.f 3)], [depth, two, ult, not, .qbranch (.f 2)], [depth, two, sub, tor],
      [stack_start, zero], [.mark 1, twodup, plus, «at», dot], [cell, plus], [.next (.b 1)],
      [twodrop], [.mark 2, dup, dot], [.mark 3, exit]]
  | domsg => XT [rfrom, count, type]
  | msg_prompt | msg_reset | msg_hyphen | msg_quote | msg_colon | msg_data | msg_stack
  | msg_underflow | msg_overflow | msg_invalid | msg_bus | msg_access | msg_unaligned
  | msg_return | msg_unknown | msg_word | msg_missing | msg_token | msg_after | msg_tick
  | msg_variable | msg_name => MSG_XT
  | current_init => CONST_XT last_dentry
  | current => VAR_XT
  | dentry_name => XT [cellinc, two, plus]
  | dentry_xta => XT [cellinc, xtaat, one, not, and]
  | dentry_immediate => XT [cellinc, xtaat, one, and]
  | words => LIST_XT [
      [current, «at»], [.mark 1, dup, .qbranch (.f 2)], [dup, dentry_name, count, space, type],
      [«at»], [.branch (.b 1)], [.mark 2, drop, exit]]
  | dentry_by_name => LIST_XT [
      [tor, tor], [current, «at»], [.mark 1, qdup, .qbranch (.f 2)],
      [dup, dentry_name, tworat, ask_string_match, not, .qbranch (.f 3)], [«at»],
      [.branch (.b 1)], [.mark 2, false], [.mark 3, rfrom, rfrom, twodrop, exit]]
  | ask_newline => XT [dup, nl_char, equal, swap, cr_char, equal, or]
  | ask_space => XT [bl_char, equal]
  | ask_tab => XT [tab_char, equal]
  | ask_whitespace => XT [dup, ask_space, «over», ask_tab, or, swap, ask_newline, or]
  | ask_non_whitespace => XT [ask_whitespace, not]
  | scan => LIST_XT [
      [swap], [qdup, .qbranch (.f 1)], [one, sub, tor], [zero, swap], [.mark 2, tor],
      [twodup, plus, cat], [rat, execute, not, .qbranch (.f 3)], [rfrom, drop], [swap, drop],
      [rfrom, drop, exit], [.mark 3, inc], [rfrom], [.next (.b 2)], [drop], [swap, drop, exit],
      [.mark 1, drop, drop, zero, exit]]
  | num_whitespace => XT [.xtalit ask_whitespace, scan]
  | num_non_whitespace => XT [.xtalit ask_non_whitespace, scan]
  | advance => XT [dup, tor, sub, swap, rfrom, plus, swap]
  | skip_whitespace => XT [twodup, num_whitespace, advance]
  | ask_digit => LIST_XT [
      [dup, zero_char, nine_char, inc, within, «over», a_char, z_char, inc, within, or,
        .qbranch (.f 1)],
      [dup, a_char, ult, not, offset_9_a, and, sub], [zero_char, sub],
      [dup, base, «at», ult, .qbranch (.f 1)], [true, exit], [.mark 1, drop, false, exit]]
  | ask_number => LIST_XT [
      [qdup, .qbranch (.f 4)], [one, sub, tor], [zero], [.mark 1, swap, dup, cat],
      [ask_digit, qdup, .qbranch (.f 3)], [drop], [rot], [base, «at», ummul],
      [zero, equal, .qbranch (.f 2)], [plus], [tor, inc, rfrom], [.next (.b 1)], [swap, drop],
      [true, exit], [.mark 2, drop], [.mark 3, rfrom, twodrop], [.mark 4, drop], [false, exit]]
  | parse_ptr => VAR_XT
  | parse_len => VAR_XT
  | scan_one_word => LIST_XT [
      [parse_ptr, «at», parse_len, «at»], [twodup, num_whitespace, advance],
      [qdup, .qbranch (.f 1)], [twodup], [num_non_whitespace], [tor, «over», swap, rat], [advance],
      [parse_len, store], [parse_ptr, store], [rfrom, exit], [.mark 1, false, exit]]
  | interpret_one_word => LIST_XT [
      [scan_one_word], [qdup, .qbranch (.f 2)], [twodup],
      [twodup, ask_number, qdup, .qbranch (.f 1)], [drop], [tor, twodrop, twodrop, rfrom],
      [true, exit], [.mark 1, dentry_by_name], [qdup, .qbranch (.f 3)], [rot, rot, twodrop],
      [try_exec_dentry], [true, exit], [.mark 2, drop, false, exit],
      [.mark 3, cr, msg_unknown, space, msg_word, space, msg_quote, type, msg_quote, cr],
      [false, exit]]
  | tick => LIST_XT [
      [.mark 1, scan_one_word], [qdup, .qbranch (.f 2)], [twodup], [dentry_by_name, dentry_xta],
      [qdup, .qbranch (.f 3)], [rot, rot, twodrop], [exit],
      [.mark 2, cr, msg_missing, space, msg_token, space, msg_after, space, msg_tick, cr, exit],
      [.mark 3, cr, msg_unknown, space, msg_word, space, msg_quote, type, msg_quote, cr, exit]]
  | incr_one => XT [dup, «at», inc, swap, store]
  | incr_cell => XT [dup, «at», cell, plus, swap, store]
  | xta_align_cp => XT [cp, «at», xta_aligned, cp, store]
  | cell_align_cp => XT [cp, «at», cell_aligned, cp, store]
  | advance_cp => XT [cp, «at», plus, cp, store]
  | compile_cell => XT [cp, «at», xta_aligned_store, cp, incr_cell]
  | compile_xta => XT [cp, «at», xtastore, two, advance_cp]
  | compile_byte => XT [cp, «at», cstore, cp, incr_one]
  | compile_string => LIST_XT [
      [dup, compile_byte], [tor, cp, «at», rat, cmove], [rfrom, advance_cp], [exit]]
  | compile_exit => XT [.xtalit exit, compile_xta]
  | update_latest_dentry_xta => XT [latest_dentry, «at», cell, plus, xtastore]
  | mark_latest_dentry_immediate => XT [latest_dentry, «at», cell, plus, dup, xtaat, one, or,
      xtastore]
  | commit_latest_dentry => XT [latest_dentry, «at», current, store]
  | here => XT [cp, «at», xt_base_ptr, sub]
  | create_dentry => LIST_XT [
      [cell_align_cp], [cp, «at», latest_dentry, store], [current, «at», compile_cell],
      [zero, compile_xta], [compile_string], [cell_align_cp], [here], [update_latest_dentry_xta],
      [dolist_ptr, compile_xta], [exit]]
  | «variable» => LIST_XT [
      [scan_one_word], [qdup, .qbranch (.f 2)], [create_dentry], [.xtalit dovar, compile_xta],
      [cell_align_cp], [zero, compile_cell], [commit_latest_dentry], [exit],
      [.mark 2, cr, msg_missing, space, msg_variable, space, msg_name, cr, exit]]
  | colon => LIST_XT [
      [scan_one_word], [qdup, .qbranch (.f 2)], [create_dentry], [state_compile], [exit],
      [.mark 2, cr, msg_missing, space, msg_token, space, msg_after, space, msg_colon, cr, exit]]
  | semicolon => LIST_XT [[compile_exit], [commit_latest_dentry], [state_interpret], [exit]]
  | compile_one_word => LIST_XT [
      [scan_one_word], [qdup, .qbranch (.f 2)], [twodup],
      [twodup, ask_number, qdup, .qbranch (.f 1)], [drop], [.xtalit dolit, compile_xta],
      [compile_cell], [twodrop, twodrop], [true, exit], [.mark 1, dentry_by_name],
      [qdup, .qbranch (.f 3)], [rot, rot, twodrop], [dup, dentry_immediate, .qbranch (.f 5)],
      [try_exec_dentry], [true, exit], [.mark 5, dentry_xta], [compile_xta], [true, exit],
      [.mark 2, drop, false, exit],
      [.mark 3, cr, msg_unknown, space, msg_word, space, msg_quote, type, msg_quote, cr],
      [false, exit]]
  | compile_qbranch => XT [.xtalit qbranch, compile_xta]
  | compile_branch => XT [.xtalit branch, compile_xta]
  | compile_if => LIST_XT [[compile_qbranch], [here], [zero, compile_xta], [exit]]
  | compile_then => XT [here, swap, xt_base_ptr, plus, xtastore]
  | compile_begin => XT [here]
  | compile_again => XT [compile_branch, compile_xta]
  | compile_until => XT [compile_qbranch, compile_xta]
  | compile_for => XT [.xtalit tor, compile_xta, here]
  | compile_next => XT [.xtalit next, compile_xta, compile_xta]
  | compile_aft => LIST_XT [[drop], [compile_branch, here, zero, compile_xta], [here], [swap, exit]]
  | tib_complete => VAR_XT
  | tib => CONST_XT tib_lo
  | tib_capacity => CONST_XT (tib_hi - tib_lo - 1)
  | handle_backspace => LIST_XT [
      [tib, cat, zero, equal, not, .qbranch (.f 1)], [bs_char, emit, space, bs_char, emit],
      [tib, cat, one, sub, tib, cstore], [.mark 1, exit]]
  | append_to_tib => LIST_XT [
      [tib, cat, tib_capacity, ult, .qbranch (.f 1)], [dup, emit],
      [dup, tib, inc, tib, cat, plus, cstore], [tib, cat, inc, tib, cstore], [.mark 1, drop, exit]]
  | handle_cr => XT [true, tib_complete, store]
  | matches_cr => XT [dup, cr_char, equal, swap, nl_char, equal, or]
  | matches_bs => XT [dup, bs_char, equal, swap, del_char, equal, or]
  | matches_reset => XT [reset_char, equal]
  | handle_uart_char => LIST_XT [
      [dup, matches_cr, .qbranch (.f 1), drop, handle_cr, exit, .mark 1],
      [dup, matches_bs, .qbranch (.f 1), drop, handle_backspace, exit, .mark 1],
      [dup, matches_reset, .qbranch (.f 1), drop, reset, exit, .mark 1], [append_to_tib], [exit]]
  | handle_uart_input => LIST_XT [[ask_key, .qbranch (.f 1)], [handle_uart_char], [.mark 1, exit]]
  | try_exec_dentry => LIST_XT [[qdup, .qbranch (.f 1), dentry_xta, execute], [.mark 1, exit]]
  | evaluate_one_word => XT [eval_xt, «at», execute]
  | evaluate => LIST_XT [
      [parse_len, store, parse_ptr, store], [.mark 1, evaluate_one_word], [not, .qbranch (.b 1)],
      [exit]]
  | interpret_tib => LIST_XT [[cr], [tib, count], [evaluate], [cr], [exit]]
  | show_prompt => XT [depth, fmt_start, fmt_number, fmt_end, type, msg_prompt]
  | reset_tib => XT [zero, tib_complete, store, zero, tib, cstore, show_prompt]
  | try_eval_tib => LIST_XT [
      [tib_complete, «at», .qbranch (.f 1), interpret_tib, reset_tib], [.mark 1, exit]]
  | do_uart => LIST_XT [[handle_uart_input], [try_eval_tib], [exit]]
  | main => LIST_XT [
      [.xtalit interpret_one_word, eval_xt, store], [.xtalit do_uart, mainloop_xt, store],
      [.xtalit emit_uart, emit_xt, store], [current_init, current, store], [cp_init, cp, store],
      [app_start, app_bytes, evaluate], [cr], [reset_tib],
      [.mark 1, mainloop_xt, «at», execute, .branch (.b 1)]]
  | error_dstack_overflow => LIST_XT [[data_stack_error, msg_overflow, restart]]
  | error_dstack_underflow => LIST_XT [[data_stack_error, msg_underflow, restart]]
  | error_rstack_overflow => LIST_XT [[return_stack_error, msg_overflow, restart]]
  | error_rstack_underflow => LIST_XT [[return_stack_error, msg_underflow, restart]]
  | error_unaligned_access => LIST_XT [[cr, msg_unaligned, space, msg_access, restart]]
  | error_bus_access => LIST_XT [[cr, msg_invalid, space, msg_bus, space, msg_access, restart]]
  | reset_list => LIST_XT [[cr, cr, msg_reset, restart]]
  | _ => []

-- ---------------------------------------------------------------------------
-- Layout
-- ---------------------------------------------------------------------------

/-- The offset from `_start` of an execution token. The lists without a header start 2
bytes behind the offset given for them. -/
def offset : Label → Half
  | drop => 0x1b8 | dup => 0x1c4 | swap => 0x1f0 | «over» => 0x210 | qdup => 0x22c | tor => 0x28c
  | rat => 0x2ac | tworat => 0x2c8 | rfrom => 0x300 | zless => 0x320 | equal => 0x33c
  | ult => 0x364 | slt => 0x38c | dolit => 0x3b4 | xtalit => 0x3d4 | branch => 0x3e8
  | qbranch => 0x3f8 | next => 0x420 | umplus => 0x45c | and => 0x488 | or => 0x4a8 | xor => 0x4c8
  | store => 0x4e8 | «at» => 0x508 | cstore => 0x51c | cat => 0x53c | xtastore => 0x550
  | xtaat => 0x570 | xta_aligned_store => 0x584 | rawdot => 0x5ac | emit_uart => 0x5cc
  | depth => 0x600 | exit => 0x610 | execute => 0x62c | reset => 0x660 | aligned => 0x678
  | zero => 0x6ac | one => 0x6b8 | two => 0x6c4 | nine => 0x6d0 | ten => 0x6dc | sixteen => 0x6e8
  | thirty_one => 0x6f4 | neg_one => 0x700 | true => 0x70c | false => 0x718 | bl_char => 0x724
  | a_char => 0x730 | z_char => 0x73c | tab_char => 0x748 | cr_char => 0x754 | nl_char => 0x760
  | bs_char => 0x76c | del_char => 0x778 | reset_char => 0x784 | zero_char => 0x790
  | nine_char => 0x79c | minus_char => 0x7a8 | offset_9_a => 0x7b4 | pad => 0x7c0 | cell => 0x7cc
  | stack_start => 0x7d8 | xt_base_ptr => 0x7e4 | app_start => 0x7f0 | app_bytes => 0x7fc
  | cp_init => 0x808 | dolist_ptr => 0x814 | twodrop => 0x81e | twodup => 0x826 | rot => 0x82e
  | plus => 0x83a | not => 0x842 | inc => 0x84a | negate => 0x852 | sub => 0x85a | incvar => 0x862
  | cellinc => 0x870 | celldec => 0x878 | cells => 0x880 | cell_aligned => 0x88c
  | xta_aligned => 0x894 | count => 0x89c | umdiv_mod => 0x8a8 | ummul => 0x902 | mul => 0x936
  | within => 0x93e | abs => 0x94e | bytes_equal => 0x95c | ask_string_match => 0x9a4
  | cmove => 0x9c2 | dovar => 0x9e8 | cp => 0x9f0 | base => 0x9f8 | hld => 0xa00
  | latest_dentry => 0xa08 | eval_xt => 0xa10 | emit_xt => 0xa18 | mainloop_xt => 0xa20
  | state_compile => 0xa28 | state_interpret => 0xa34 | data_stack_error => 0xa40
  | return_stack_error => 0xa4e | restart => 0xa5c | emit => 0xa66 | space => 0xa70 | cr => 0xa78
  | hex => 0xa84 | decimal => 0xa8e | digit => 0xa98 | extract => 0xaac | fmt_start => 0xaba
  | hold => 0xac4 | fmt_digit => 0xad8 | fmt_number => 0xae4 | fmt_sign => 0xaf4
  | fmt_end => 0xb02 | type => 0xb12 | signed_str => 0xb34 | udot => 0xb48 | dot => 0xb56
  | show_stack => 0xb70 | domsg => 0xba8 | msg_prompt => 0xbb2 | msg_reset => 0xbbc
  | msg_hyphen => 0xbc8 | msg_quote => 0xbd0 | msg_colon => 0xbd8 | msg_data => 0xbe0
  | msg_stack => 0xbec | msg_underflow => 0xbf8 | msg_overflow => 0xc08 | msg_invalid => 0xc18
  | msg_bus => 0xc24 | msg_access => 0xc2c | msg_unaligned => 0xc38 | msg_return => 0xc48
  | msg_unknown => 0xc54 | msg_word => 0xc60 | msg_missing => 0xc6c | msg_token => 0xc78
  | msg_after => 0xc84 | msg_tick => 0xc90 | msg_variable => 0xc9c | msg_name => 0xcac
  | current_init => 0x108c | current => 0x1096 | dentry_name => 0x10a0 | dentry_xta => 0x10aa
  | dentry_immediate => 0x10b8 | words => 0x10c4 | dentry_by_name => 0x10e4
  | ask_newline => 0x1112 | ask_space => 0x1124 | ask_tab => 0x112c | ask_whitespace => 0x1134
  | ask_non_whitespace => 0x1148 | scan => 0x1150 | num_whitespace => 0x119c
  | num_non_whitespace => 0x11a6 | advance => 0x11b0 | skip_whitespace => 0x11c2
  | ask_digit => 0x11cc | ask_number => 0x1210 | parse_ptr => 0x1260 | parse_len => 0x1268
  | scan_one_word => 0x1270 | interpret_one_word => 0x12a4 | tick => 0x12f8 | incr_one => 0x133e
  | incr_cell => 0x134c | xta_align_cp => 0x135c | cell_align_cp => 0x136a | advance_cp => 0x1378
  | compile_cell => 0x1386 | compile_xta => 0x1394 | compile_byte => 0x13a2
  | compile_string => 0x13b0 | compile_exit => 0x13c6 | update_latest_dentry_xta => 0x13d0
  | mark_latest_dentry_immediate => 0x13de | commit_latest_dentry => 0x13f4 | here => 0x1400
  | create_dentry => 0x140c | «variable» => 0x1430 | colon => 0x145c | semicolon => 0x1480
  | compile_one_word => 0x148a | compile_qbranch => 0x14f2 | compile_branch => 0x14fc
  | compile_if => 0x1506 | compile_then => 0x1512 | compile_begin => 0x1520
  | compile_again => 0x1526 | compile_until => 0x152e | compile_for => 0x1536
  | compile_next => 0x1542 | compile_aft => 0x154e | ask_key => 0x1560 | tib_complete => 0x1628
  | tib => 0x1630 | tib_capacity => 0x163c | handle_backspace => 0x1646 | append_to_tib => 0x166e
  | handle_cr => 0x169c | matches_cr => 0x16a6 | matches_bs => 0x16b8 | matches_reset => 0x16ca
  | handle_uart_char => 0x16d2 | handle_uart_input => 0x1702 | try_exec_dentry => 0x170e
  | evaluate_one_word => 0x171c | evaluate => 0x1726 | interpret_tib => 0x173a
  | show_prompt => 0x1748 | reset_tib => 0x1758 | try_eval_tib => 0x176a | do_uart => 0x177a
  | main => 0xa2 | error_dstack_overflow => 0xda | error_dstack_underflow => 0xe0
  | error_rstack_overflow => 0xe6 | error_rstack_underflow => 0xec
  | error_unaligned_access => 0xf2 | error_bus_access => 0xfc | reset_list => 0x10a

def addr (l : Label) : Cell := start + l.offset.setWidth 32

end Label

end Allwinner.Scp
