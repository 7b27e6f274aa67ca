import NaLibp2p.Lib.Text

/-! The transports that a protocol string asks for.

`check_protocol` accepts lists over `tcp`, `quic` and `relay`, with white space
around the words, and `libp2p`. `parse_transport_config` reads such a list in full for
what is enabled, but only its first word for the priority. A list that starts
with `relay` is therefore served with TCP as its priority, be TCP enabled or not
(`priority_not_enabled`); every other configuration is what the list says
(`transport_config_iff`). -/
namespace NaLibp2p.Plugin
open Text

inductive TransportKind where
  | tcp
  | quic
deriving Repr, DecidableEq

structure TransportConfig where
  tcp : Bool
  quic : Bool
  relay : Bool
  priority : TransportKind
deriving Repr, DecidableEq

/-- The words of a protocol string. -/
inductive Transport where
  | tcp
  | quic
  | relay
deriving Repr, DecidableEq

def Transport.text : Transport → List Char
  | .tcp => ['t', 'c', 'p']
  | .quic => ['q', 'u', 'i', 'c']
  | .relay => ['r', 'e', 'l', 'a', 'y']

def libp2pText : List Char := ['l', 'i', 'b', 'p', '2', 'p']

/-- `name.split(',')` with every part trimmed. -/
def nameParts (name : List Char) : List (List Char) := (name.splitOn ',').map trim

def checkProtocol (name : List Char) : Bool :=
  if name = libp2pText then true
  else (nameParts name).all fun part =>
    part = Transport.text .tcp ∨ part = Transport.text .quic ∨ part = Transport.text .relay

/-- The variables of the loop over the parts. -/
structure Enabled where
  tcp : Bool := false
  quic : Bool := false
  relay : Bool := false
deriving Repr, DecidableEq

def enable (on : Enabled) (part : List Char) : Enabled :=
  if part = Transport.text .tcp then {on with tcp := true}
  else if part = Transport.text .quic then {on with quic := true}
  else if part = Transport.text .relay then {on with relay := true}
  else on

def parseTransportConfig (name : List Char) : TransportConfig :=
  if name = [] ∨ name = libp2pText then ⟨true, false, false, .tcp⟩
  else
    let parts := nameParts name
    let on := parts.foldl enable {}
    if !on.tcp && !on.quic then ⟨true, false, on.relay, .tcp⟩
    else
      -- `parts[0]` is there: a split has at least one part
      let priority := if parts.head? = some (Transport.text .quic) then .quic else .tcp
      ⟨on.tcp, on.quic, on.relay, priority⟩

/-! ### What a protocol string lists -/

/-- The words of a protocol string: none for `libp2p`, else those between the commas. -/
def Lists (name : List Char) (words : List Transport) : Prop :=
  (name = libp2pText ∧ words = []) ∨
    (words ≠ [] ∧ ∃ parts, List.Forall₂ (fun word part => Padded word.text part) words parts ∧
      name = [','].intercalate parts)

theorem Transport.text_dense (word : Transport) : ∀ c ∈ word.text, isWhitespace c = false ∧ c ≠ ',' := by
  cases word <;> simp [Transport.text, isWhitespace]

/-- A padded word has no comma in it, so that a list of them is split where it was joined. -/
theorem comma_not_mem {word : Transport} {part : List Char} (h : Padded word.text part) : ',' ∉ part := by
  obtain ⟨before, after, rfl, hbefore, hafter⟩ := h
  have hcomma : isWhitespace ',' = false := by decide
  intro hmem
  rcases List.mem_append.mp hmem with hmem | hmem
  · rcases List.mem_append.mp hmem with hmem | hmem
    · rw [hbefore _ hmem] at hcomma
      cases hcomma
    · exact (word.text_dense _ hmem).2 rfl
  · rw [hafter _ hmem] at hcomma
    cases hcomma

section Listed
variable {words : List Transport} {parts : List (List Char)}
  (hparts : List.Forall₂ (fun word part => Padded word.text part) words parts)
include hparts

theorem map_trim : parts.map trim = words.map Transport.text := by
  induction hparts with
  | nil => rfl
  | @cons word part words parts hpart hrest ih =>
    have htrim := trim_padded (fun c hc => (word.text_dense c hc).1) hpart
    rw [List.map_cons, List.map_cons, htrim, ih]

theorem parts_no_comma : ∀ part ∈ parts, ',' ∉ part := by
  induction hparts with
  | nil => exact fun part hmem => absurd hmem List.not_mem_nil
  | cons hpart hrest ih => exact List.forall_mem_cons.mpr ⟨comma_not_mem hpart, ih⟩

theorem nameParts_intercalate (hne : words ≠ []) :
    nameParts ([','].intercalate parts) = words.map Transport.text := by
  have hsome : parts ≠ [] := by
    intro hnil
    rw [hnil] at hparts
    exact hne (List.forall₂_nil_right_iff.mp hparts)
  rw [nameParts, List.splitOn_intercalate ',' (parts_no_comma hparts) hsome, map_trim hparts]

end Listed

/-- The parts of an accepted string are padded words. -/
theorem exists_words (parts : List (List Char)) (h : ∀ part ∈ parts, ∃ word : Transport, trim part = word.text) :
    ∃ words, List.Forall₂ (fun word part => Padded (Transport.text word) part) words parts := by
  induction parts with
  | nil => exact ⟨[], .nil⟩
  | cons part parts ih =>
    obtain ⟨hpart, hparts⟩ := List.forall_mem_cons.mp h
    obtain ⟨word, hword⟩ := hpart
    obtain ⟨words, hwords⟩ := ih hparts
    exact ⟨word :: words, .cons (hword ▸ padded_trim part) hwords⟩

/-- What the test of a part tests. -/
theorem part_accepted {part : List Char} : (∃ word : Transport, part = word.text) ↔
    part = Transport.text .tcp ∨ part = Transport.text .quic ∨ part = Transport.text .relay := by
  constructor
  · rintro ⟨word, rfl⟩
    cases word <;> simp
  · rintro (h | h | h)
    · exact ⟨.tcp, h⟩
    · exact ⟨.quic, h⟩
    · exact ⟨.relay, h⟩

/-- `check_protocol` accepts the lists and nothing else. -/
theorem checkProtocol_iff (name : List Char) : checkProtocol name = true ↔ ∃ words, Lists name words := by
  unfold checkProtocol
  split
  · rename_i hname
    exact ⟨fun _ => ⟨[], .inl ⟨hname, rfl⟩⟩, fun _ => rfl⟩
  · rename_i hname
    simp only [List.all_eq_true, decide_eq_true_eq, ← part_accepted]
    constructor
    · intro hall
      obtain ⟨words, hwords⟩ := exists_words (name.splitOn ',') (by
        intro part hmem
        exact hall (trim part) (List.mem_map_of_mem hmem))
      refine ⟨words, .inr ⟨?_, name.splitOn ',', hwords, (List.intercalate_splitOn ',').symm⟩⟩
      rintro rfl
      exact List.splitOn_ne_nil ',' name (List.forall₂_nil_left_iff.mp hwords)
    · rintro ⟨words, ⟨hlib, -⟩ | ⟨hne, parts, hparts, rfl⟩⟩ part hmem
      · exact absurd hlib hname
      · rw [nameParts_intercalate hparts hne] at hmem
        obtain ⟨word, -, rfl⟩ := List.mem_map.mp hmem
        exact ⟨word, rfl⟩

/-! ### What is made of it -/

/-- The first of the transports that a node listens on. -/
def firstDirect : List Transport → Option TransportKind
  | [] => none
  | .tcp :: _ => some .tcp
  | .quic :: _ => some .quic
  | .relay :: rest => firstDirect rest

def TransportConfig.enables (config : TransportConfig) : TransportKind → Bool
  | .tcp => config.tcp
  | .quic => config.quic

theorem foldl_enable (words : List Transport) (on : Enabled) :
    (words.map Transport.text).foldl enable on =
      ⟨on.tcp || decide (.tcp ∈ words), on.quic || decide (.quic ∈ words), on.relay || decide (.relay ∈ words)⟩ := by
  induction words generalizing on with
  | nil => simp
  | cons word words ih =>
    rw [List.map_cons, List.foldl_cons, ih]
    cases word <;> simp [enable, Transport.text]

theorem not_word {words : List Transport} {part : List Char} (hpart : ∀ word : Transport, word.text ≠ part) :
    part ∉ words.map Transport.text := by
  intro hmem
  obtain ⟨word, -, hword⟩ := List.mem_map.mp hmem
  exact hpart word hword

/-- What is parsed of a list of words. -/
def listedConfig (words : List Transport) : TransportConfig :=
  if .tcp ∉ words ∧ .quic ∉ words then ⟨true, false, decide (.relay ∈ words), .tcp⟩
  else ⟨decide (.tcp ∈ words), decide (.quic ∈ words), decide (.relay ∈ words),
    if words.head? = some .quic then .quic else .tcp⟩

theorem parse_words {name : List Char} {words : List Transport}
    (hparts : nameParts name = words.map Transport.text) : parseTransportConfig name = listedConfig words := by
  have hname : ¬ (name = [] ∨ name = libp2pText) := by
    rintro (rfl | rfl)
    · exact not_word (by rintro ⟨⟩ <;> decide) (hparts ▸ show [] ∈ nameParts [] by decide)
    · exact not_word (by rintro ⟨⟩ <;> decide) (hparts ▸ show libp2pText ∈ nameParts libp2pText by decide)
  have hfirst : (words.map Transport.text).head? = some (Transport.text .quic) ↔ words.head? = some .quic := by
    cases words with
    | nil => simp
    | cons word words => cases word <;> simp [Transport.text]
  rw [parseTransportConfig, if_neg hname, listedConfig]
  simp only [hparts, foldl_enable, Bool.false_or, hfirst]
  by_cases htcp : Transport.tcp ∈ words <;> by_cases hquic : Transport.quic ∈ words <;> simp [htcp, hquic]

theorem parse_lists {name : List Char} {words : List Transport} (h : Lists name words) :
    parseTransportConfig name = listedConfig words := by
  obtain ⟨rfl, rfl⟩ | ⟨hne, parts, hparts, rfl⟩ := h
  · decide
  · exact parse_words (nameParts_intercalate hparts hne)

/-- The transports that are on are those that are listed, and TCP if none of the direct ones is. -/
structure EnablesListed (words : List Transport) (config : TransportConfig) : Prop where
  relay : config.relay = true ↔ .relay ∈ words
  quic : config.quic = true ↔ .quic ∈ words
  tcp : config.tcp = true ↔ .tcp ∈ words ∨ (.tcp ∉ words ∧ .quic ∉ words)

/-- The priority is the first direct transport of the list, and on. -/
def PrefersListed (words : List Transport) (config : TransportConfig) : Prop :=
  config.priority = (firstDirect words).getD .tcp ∧ config.enables config.priority = true

/-- The list starts with `relay`, and has `quic` before any `tcp`. -/
def RelayBeforeQuic (words : List Transport) : Prop :=
  words.head? = some .relay ∧ firstDirect words = some .quic

theorem listedConfig_enables (words : List Transport) : EnablesListed words (listedConfig words) := by
  rw [listedConfig]
  split
  · rename_i hnone
    exact ⟨by simp, by simp [hnone], by simp [hnone]⟩
  · rename_i hsome
    exact ⟨by simp, by simp, by simp [hsome]⟩

theorem firstDirect_none {words : List Transport} : firstDirect words = none ↔ .tcp ∉ words ∧ .quic ∉ words := by
  induction words with
  | nil => simp [firstDirect]
  | cons word words ih => cases word <;> simp [firstDirect, ih]

theorem firstDirect_tcp {words : List Transport} (h : firstDirect words = some .tcp) : .tcp ∈ words := by
  induction words with
  | nil => cases h
  | cons word words ih =>
    cases word with
    | tcp => exact List.mem_cons_self
    | quic => cases h
    | relay => exact List.mem_cons_of_mem _ (ih h)

/-- Behind a first `relay` the priority is TCP, whatever the rest of the list says. -/
theorem listedConfig_prefers (words : List Transport) :
    PrefersListed words (listedConfig words) ↔ ¬ RelayBeforeQuic words := by
  cases words with
  | nil => simp [PrefersListed, RelayBeforeQuic, listedConfig, firstDirect, TransportConfig.enables]
  | cons word words =>
    cases word with
    | tcp => simp [PrefersListed, RelayBeforeQuic, listedConfig, firstDirect, TransportConfig.enables]
    | quic => simp [PrefersListed, RelayBeforeQuic, listedConfig, firstDirect, TransportConfig.enables]
    | relay =>
      have hpriority : (listedConfig (.relay :: words)).priority = .tcp := by
        rw [listedConfig]
        split <;> rfl
      have htcp := (listedConfig_enables (.relay :: words)).tcp
      rw [PrefersListed, RelayBeforeQuic, hpriority, firstDirect, TransportConfig.enables]
      cases hfirst : firstDirect words with
      | none => simp [htcp, firstDirect_none.mp hfirst]
      | some kind =>
        cases kind with
        | tcp => simp [htcp, firstDirect_tcp hfirst]
        | quic => simp

/-- **The configuration is what the string says, unless it starts with `relay`.** The
accepted strings are the lists of transports, and the transports of a list are
enabled. The priority is the first direct transport of the list, and enabled, exactly
when `relay` does not stand in front of a list that has `quic` first. -/
theorem transport_config_iff (name : List Char) :
    (checkProtocol name = true ↔ ∃ words, Lists name words) ∧
    ∀ words, Lists name words → EnablesListed words (parseTransportConfig name) ∧
      (PrefersListed words (parseTransportConfig name) ↔ ¬ RelayBeforeQuic words) := by
  refine ⟨checkProtocol_iff name, ?_⟩
  intro words h
  rw [parse_lists h]
  exact ⟨listedConfig_enables words, listedConfig_prefers words⟩

/-- `relay,quic` is accepted and has no TCP, and TCP is its priority. -/
theorem priority_not_enabled :
    let name := ['r', 'e', 'l', 'a', 'y', ',', 'q', 'u', 'i', 'c']
    checkProtocol name = true ∧ Lists name [.relay, .quic] ∧
      parseTransportConfig name = ⟨false, true, true, .tcp⟩ ∧
      ¬ PrefersListed [.relay, .quic] (parseTransportConfig name) := by
  intro name
  refine ⟨by decide, .inr ⟨by decide, [Transport.text .relay, Transport.text .quic], ?_, by decide⟩, by decide, ?_⟩
  · exact .cons (padded_self _) (.cons (padded_self _) .nil)
  · rintro ⟨-, henabled⟩
    exact absurd henabled (by decide)

/-- `quic, relay` with a blank behind the comma. -/
theorem transport_config_quic :
    let name := ['q', 'u', 'i', 'c', ',', ' ', 'r', 'e', 'l', 'a', 'y']
    EnablesListed [.quic, .relay] (parseTransportConfig name) ∧
      PrefersListed [.quic, .relay] (parseTransportConfig name) := by
  intro name
  have hlists : Lists name [.quic, .relay] := by
    have hblank : Padded (Transport.text .relay) (' ' :: Transport.text .relay) :=
      ⟨[' '], [], rfl, List.forall_mem_singleton.mpr rfl, by simp⟩
    refine .inr ⟨by decide, [Transport.text .quic, ' ' :: Transport.text .relay], ?_, by decide⟩
    exact .cons (padded_self _) (.cons hblank .nil)
  obtain ⟨henables, hprefers⟩ := (transport_config_iff name).2 [.quic, .relay] hlists
  refine ⟨henables, hprefers.mpr ?_⟩
  rintro ⟨hrelay, -⟩
  cases hrelay

end NaLibp2p.Plugin
