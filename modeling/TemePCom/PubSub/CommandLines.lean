/-
TemePCom/PubSub/CommandLines.lean

The lines a user types, and the requests the subscriber sends for them.

A `read` may deliver several lines, and `recv_from_stdin` takes them for one: the
command is recognised by how they begin, the last newline is removed, and the others
stay inside the words that `strtok` finds.  So a read of several lines is as good as a
line among them if it has no more words than that line (`commandSent_eq_iff`).  A word
that only begins like a command is taken for it.
-/
import TemePCom.Lib.Words
import TemePCom.PubSub.TopicKey

namespace TemePCom.PubSub

open Decimal Words

/-! ### Lines and reads -/

/-- A line of text, without its newline. -/
structure Line where
  text : Bytes
  no_newline : newline ∉ text
  no_nul : 0 ∉ text

/-- Lines as they are delivered. -/
def contentOf (lines : List Line) : Bytes := lines.flatMap fun l => l.text ++ [newline]

/-- What one `read` delivers: whole lines, and less than `BUFF_LEN` bytes. -/
structure Read where
  lines : List Line
  ne_nil : lines ≠ []
  fits : (contentOf lines).length < buffLen

def Read.content (r : Read) : Bytes := contentOf r.lines

/-- The lines without the last newline. -/
def Read.text (r : Read) : Bytes := r.content.dropLast

/-! ### What is to be sent -/

/-- The words of a line. -/
def wordsOf (line : Bytes) : List Bytes := words space line

/-- The line is `exit`. -/
def IsExit (l : Line) : Prop := wordsOf l.text = [exitWord]

instance (l : Line) : Decidable (IsExit l) := inferInstanceAs (Decidable (_ = _))

/-- The request for a line: the word subscribe, a topic and an SF token, or the word
unsubscribe and a topic. -/
def request (l : Line) : Option FromTcp :=
  match wordsOf l.text with
  | [command, topic, sf] =>
    if command = subscribeWord then
      some ⟨subscribeType, topicField (topic.take 50), if strtol sf = 1 then 1 else 0⟩
    else none
  | [command, topic] =>
    if command = unsubscribeWord then some ⟨unsubscribeType, topicField (topic.take 50), 0⟩
    else none
  | _ => none

/-- The requests for the lines in front of the first `exit`. -/
def requestsOf (lines : List Line) : List FromTcp :=
  (lines.takeWhile fun l => ¬ IsExit l).filterMap request

def HasExit (lines : List Line) : Prop := ∃ l ∈ lines, IsExit l

instance (lines : List Line) : Decidable (HasExit lines) :=
  inferInstanceAs (Decidable (∃ l ∈ lines, IsExit l))

/-- The requests for the lines, read by read. -/
def requested : List Read → List (List FromTcp)
  | [] => []
  | r :: rs => requestsOf r.lines ::
    if HasExit r.lines then rs.map fun _ => [] else requested rs

/-! ### `strtok` and words -/

theorem wordsOf_strtok (rest : Bytes) : wordsOf rest =
    match strtok rest with
    | none => []
    | some (w, rest') => w :: wordsOf rest' := by
  unfold wordsOf strtok
  rw [← words_dropWhile]
  set s := rest.dropWhile (· = space) with hs
  rcases hcons : s with - | ⟨c, s'⟩
  · rfl
  · have hc : c ≠ space := by
      have hhead := List.head?_dropWhile_not (· = space) rest
      rw [← hs, hcons] at hhead
      simpa using hhead
    rw [words_eq_cons (s := c :: s') rfl hc]
    rfl

theorem wordsOf_of_none {rest : Bytes} (h : strtok rest = none) : wordsOf rest = [] := by
  rw [wordsOf_strtok, h]

theorem wordsOf_of_some {rest w rest' : Bytes} (h : strtok rest = some (w, rest')) :
    wordsOf rest = w :: wordsOf rest' := by
  rw [wordsOf_strtok, h]

/-- What is left after the first word has the other words. -/
theorem wordsOf_rest (buffer : Bytes) :
    wordsOf (((strtok buffer).map Prod.snd).getD []) = (wordsOf buffer).tail := by
  rw [wordsOf_strtok buffer]
  rcases strtok buffer with - | ⟨w, rest⟩
  · exact words_nil
  · rfl

theorem sendSubscription_eq (buffer : Bytes) : sendSubscription buffer =
    match (wordsOf buffer).tail with
    | [topic, sf] =>
      some ⟨subscribeType, topicField (topic.take 50), if strtol sf = 1 then 1 else 0⟩
    | _ => none := by
  unfold sendSubscription
  rw [← wordsOf_rest]
  generalize ((strtok buffer).map Prod.snd).getD [] = rest
  show (strtok rest).bind _ = _
  rcases htopic : strtok rest with - | ⟨topic, rest₁⟩
  · rw [wordsOf_of_none htopic]
    rfl
  rw [wordsOf_of_some htopic]
  show (strtok rest₁).bind _ = _
  rcases hsf : strtok rest₁ with - | ⟨sf, rest₂⟩
  · rw [wordsOf_of_none hsf]
    rfl
  rw [wordsOf_of_some hsf]
  rcases hmore : strtok rest₂ with - | ⟨w, rest₃⟩
  · rw [wordsOf_of_none hmore, Option.bind_some]
    simp only [hmore, truncated_eq_take]
  · rw [wordsOf_of_some hmore, Option.bind_some]
    simp only [hmore]

theorem removeSubscription_eq (buffer : Bytes) : removeSubscription buffer =
    match (wordsOf buffer).tail with
    | [topic] => some ⟨unsubscribeType, topicField (topic.take 50), 0⟩
    | _ => none := by
  unfold removeSubscription
  rw [← wordsOf_rest]
  generalize ((strtok buffer).map Prod.snd).getD [] = rest
  show (strtok rest).bind _ = _
  rcases htopic : strtok rest with - | ⟨topic, rest₁⟩
  · rw [wordsOf_of_none htopic]
    rfl
  rw [wordsOf_of_some htopic]
  rcases hmore : strtok rest₁ with - | ⟨w, rest₂⟩
  · rw [wordsOf_of_none hmore, Option.bind_some]
    simp only [hmore, truncated_eq_take]
  · rw [wordsOf_of_some hmore, Option.bind_some]
    simp only [hmore]

/-! ### What a read is taken for -/

/-- The text begins like a command and has as many words. -/
def Taken (text : Bytes) : Prop :=
  subscribeWord <+: text ∧ (wordsOf text).length = 3 ∨
    unsubscribeWord <+: text ∧ (wordsOf text).length = 2

/-- No text begins like both commands. -/
theorem not_unsubscribe_prefix {text : Bytes} (h : subscribeWord <+: text) :
    ¬ unsubscribeWord <+: text := by
  intro h'
  exact absurd (List.prefix_of_prefix_length_le h h' (by decide)) (by decide)

theorem commandSent_subscribe {text : Bytes} (h : subscribeWord <+: text) :
    commandSent text = (sendSubscription text).toList := if_pos h

theorem commandSent_unsubscribe {text : Bytes} (h : unsubscribeWord <+: text) :
    commandSent text = (removeSubscription text).toList := by
  rw [commandSent, if_neg fun h' => not_unsubscribe_prefix h' h, if_pos h]

theorem length_eq_three_iff {ws : List Bytes} : ws.length = 3 ↔ ∃ w w', ws.tail = [w, w'] := by
  rw [← List.length_eq_two, List.length_tail]
  omega

theorem length_eq_two_iff {ws : List Bytes} : ws.length = 2 ↔ ∃ w, ws.tail = [w] := by
  rw [← List.length_eq_one_iff, List.length_tail]
  omega

/-- What is sent for a text, by its words. -/
theorem commandSent_eq_singleton_iff {text : Bytes} {m : FromTcp} : commandSent text = [m] ↔
    (subscribeWord <+: text ∧ ∃ topic sf, (wordsOf text).tail = [topic, sf] ∧
      m = ⟨subscribeType, topicField (topic.take 50), if strtol sf = 1 then 1 else 0⟩) ∨
    (unsubscribeWord <+: text ∧ ∃ topic, (wordsOf text).tail = [topic] ∧
      m = ⟨unsubscribeType, topicField (topic.take 50), 0⟩) := by
  by_cases hsub : subscribeWord <+: text
  · have hunsub := not_unsubscribe_prefix hsub
    rw [commandSent_subscribe hsub, sendSubscription_eq]
    simp only [hsub, hunsub, true_and, false_and, or_false]
    split
    · next topic sf htail => simp [htail, eq_comm]
    · next hnot =>
      refine iff_of_false (by simp) ?_
      rintro ⟨topic, sf, htail, -⟩
      exact hnot topic sf htail
  · by_cases hunsub : unsubscribeWord <+: text
    · rw [commandSent_unsubscribe hunsub, removeSubscription_eq]
      simp only [hsub, hunsub, true_and, false_and, false_or]
      split
      · next topic htail => simp [htail, eq_comm]
      · next hnot =>
        refine iff_of_false (by simp) ?_
        rintro ⟨topic, htail, -⟩
        exact hnot topic htail
    · rw [commandSent, if_neg hsub, if_neg hunsub]
      simp [hsub, hunsub]

/-- At most one message is sent for a text. -/
theorem length_commandSent_le (text : Bytes) : (commandSent text).length ≤ 1 := by
  unfold commandSent
  split_ifs
  · exact Option.length_toList_le
  · exact Option.length_toList_le
  · exact Nat.zero_le _

theorem commandSent_eq_nil_iff {text : Bytes} : commandSent text = [] ↔ ¬ Taken text := by
  rw [iff_not_comm, Taken, length_eq_three_iff, length_eq_two_iff]
  constructor
  · rintro (⟨hsub, topic, sf, htail⟩ | ⟨hunsub, topic, htail⟩)
    · have hsent := commandSent_eq_singleton_iff.mpr (Or.inl ⟨hsub, topic, sf, htail, rfl⟩)
      rw [hsent]
      exact List.cons_ne_nil _ _
    · have hsent := commandSent_eq_singleton_iff.mpr (Or.inr ⟨hunsub, topic, htail, rfl⟩)
      rw [hsent]
      exact List.cons_ne_nil _ _
  · intro h
    obtain ⟨m, hm⟩ : ∃ m, commandSent text = [m] := by
      have hle := length_commandSent_le text
      have hpos := List.length_pos_iff.mpr h
      exact List.length_eq_one_iff.mp (by omega)
    rcases commandSent_eq_singleton_iff.mp hm with ⟨hsub, topic, sf, htail, -⟩ |
      ⟨hunsub, topic, htail, -⟩
    · exact Or.inl ⟨hsub, topic, sf, htail⟩
    · exact Or.inr ⟨hunsub, topic, htail⟩

/-! ### The text of a read -/

/-- Lines behind a line, as they are part of the same text. -/
def behind (post : List Line) : Bytes := post.flatMap fun l => newline :: l.text

theorem contentOf_append (pre post : List Line) :
    contentOf (pre ++ post) = contentOf pre ++ contentOf post := List.flatMap_append

theorem contentOf_cons (l : Line) (post : List Line) :
    contentOf (l :: post) = l.text ++ behind post ++ [newline] := by
  induction post generalizing l with
  | nil =>
    show l.text ++ [newline] ++ [] = l.text ++ [] ++ [newline]
    rw [List.append_nil, List.append_nil]
  | cons l' post ih =>
    show l.text ++ [newline] ++ contentOf (l' :: post) =
      l.text ++ (newline :: l'.text ++ behind post) ++ [newline]
    rw [ih]
    simp

theorem Read.text_eq {r : Read} {pre post : List Line} {l : Line}
    (h : r.lines = pre ++ l :: post) : r.text = contentOf pre ++ (l.text ++ behind post) := by
  rw [text, content, h, contentOf_append, contentOf_cons, ← List.append_assoc,
    List.dropLast_concat]

theorem Read.content_eq (r : Read) : r.content = r.text ++ [newline] := by
  obtain ⟨l, post, h⟩ := List.exists_cons_of_ne_nil r.ne_nil
  have hlines : r.lines = [] ++ l :: post := h
  rw [text_eq hlines, content, h, contentOf_cons]
  rfl

theorem nul_notMem_contentOf (lines : List Line) : 0 ∉ contentOf lines := by
  intro h
  obtain ⟨l, -, hl⟩ := List.mem_flatMap.mp h
  rcases List.mem_append.mp hl with htext | hnewline
  · exact l.no_nul htext
  · exact absurd (List.mem_singleton.mp hnewline) (by decide)

/-- A read is handled as its text. -/
theorem recvFromStdin_content (r : Read) (beyond : Bytes) : recvFromStdin r.content beyond =
    if exitWord <+: r.text then .ok (true, []) else .ok (false, commandSent r.text) := by
  have hpadding := Nat.sub_pos_of_lt r.fits
  obtain ⟨d, hd⟩ := Nat.exists_eq_add_one.mpr hpadding
  have hbuffer : cString (r.content ++ List.replicate (buffLen - r.content.length) 0 ++ beyond) =
      r.content := by
    rw [Read.content, hd, List.replicate_succ, List.append_assoc,
      cString_append (nul_notMem_contentOf r.lines)]
    simp [cString]
  have hne : r.content ≠ [] := by simp [r.content_eq]
  have hlast : r.content.getLast? = some newline := by simp [r.content_eq]
  simp only [recvFromStdin, hbuffer, hne, if_false, hlast, if_true]
  rfl

/-! ### A line among others -/

/-- The read `pre`, `l`, `post` is taken for the line `l`: it has no more words, begins
with the command, and what follows the line changes neither the SF token nor the topic. -/
def Heard (pre : List Line) (l : Line) (post : List Line) : Prop :=
  let text := contentOf pre ++ (l.text ++ behind post)
  (wordsOf text).length = (wordsOf l.text).length ∧
    match wordsOf l.text with
    | [_, _, sf] => subscribeWord <+: text ∧
      (sf.all isSpace → ∀ v ∈ (wordsOf (behind post)).head?, strtol v ≠ 1)
    | [_, topic] => unsubscribeWord <+: text ∧ (post = [] ∨ 50 ≤ topic.length)
    | _ => False

/-- The words behind the first, where there are no more of them than in the line. -/
theorem tail_wordsOf {pre post : List Line} {l : Line}
    (h : (wordsOf (contentOf pre ++ (l.text ++ behind post))).length =
      (wordsOf l.text).length) :
    (post = [] ∧ (wordsOf (contentOf pre ++ (l.text ++ behind post))).tail =
      (wordsOf l.text).tail) ∨
    ∃ ws w v, post ≠ [] ∧ v.head? = some newline ∧ wordsOf (behind post) = [v] ∧
      wordsOf l.text = ws ++ [w] ∧
      (wordsOf (contentOf pre ++ (l.text ++ behind post))).tail = (ws ++ [w ++ v]).tail := by
  have hnewline : newline ≠ space := by decide
  have hright : (words space (l.text ++ behind post)).length ≤
      (words space (contentOf pre ++ (l.text ++ behind post))).length :=
    length_words_le_append_right _ _
  have hleft : (words space l.text).length ≤ (words space (l.text ++ behind post)).length :=
    length_words_le_append_left _ _
  simp only [wordsOf] at h ⊢
  have hpost : (words space (l.text ++ behind post)).length = (words space l.text).length := by
    omega
  have htail : (words space (contentOf pre ++ (l.text ++ behind post))).tail =
      (words space (l.text ++ behind post)).tail := by
    rcases List.eq_nil_or_concat' pre with rfl | ⟨pre, k, rfl⟩
    · rfl
    · have hlast : (contentOf (pre ++ [k])).getLast? = some newline := by
        simp [contentOf]
      exact tail_words_append hlast hnewline (by omega)
  rw [htail]
  cases post with
  | nil =>
    left
    refine ⟨rfl, ?_⟩
    rw [behind, List.flatMap_nil, List.append_nil]
  | cons k post =>
    right
    have hhead : (behind (k :: post)).head? = some newline := rfl
    obtain ⟨ws, w, v, hv, hbehind, hline, hboth⟩ :=
      words_append_of_length_eq hhead hnewline hpost
    exact ⟨ws, w, v, List.cons_ne_nil _ _, hv, hbehind, hline, congrArg List.tail hboth⟩

theorem request_cases {l : Line} {m : FromTcp} (h : request l = some m) :
    (∃ topic sf, wordsOf l.text = [subscribeWord, topic, sf] ∧
      m = ⟨subscribeType, topicField (topic.take 50), if strtol sf = 1 then 1 else 0⟩) ∨
    (∃ topic, wordsOf l.text = [unsubscribeWord, topic] ∧
      m = ⟨unsubscribeType, topicField (topic.take 50), 0⟩) := by
  unfold request at h
  split at h
  · next command topic sf hwords =>
    obtain ⟨hcommand, h⟩ := Option.ite_none_right_eq_some.mp h
    exact Or.inl ⟨topic, sf, hcommand ▸ hwords, (Option.some.inj h).symm⟩
  · next command topic hwords =>
    obtain ⟨hcommand, h⟩ := Option.ite_none_right_eq_some.mp h
    exact Or.inr ⟨topic, hcommand ▸ hwords, (Option.some.inj h).symm⟩
  · cases h

/-- The SF token, with what follows the line. -/
theorem exists_sfToken {pre post : List Line} {l : Line} {command topic sf : Bytes}
    (hwords : wordsOf l.text = [command, topic, sf])
    (h : (wordsOf (contentOf pre ++ (l.text ++ behind post))).length = 3) :
    ∃ sf', (wordsOf (contentOf pre ++ (l.text ++ behind post))).tail = [topic, sf'] ∧
      ((strtol sf' = 1 ↔ strtol sf = 1) ↔
        (sf.all isSpace → ∀ v ∈ (wordsOf (behind post)).head?, strtol v ≠ 1)) := by
  rcases tail_wordsOf (by rw [h, hwords]; rfl) with ⟨rfl, htail⟩ |
    ⟨ws, w, v, -, hv, hbehind, hline, htail⟩
  · refine ⟨sf, by rw [htail, hwords]; rfl, iff_of_true Iff.rfl fun _ v hv => ?_⟩
    cases hv
  · have hsplit : [command, topic] ++ [sf] = ws ++ [w] := hwords.symm.trans hline
    obtain ⟨rfl, hw⟩ := List.append_inj' hsplit rfl
    obtain rfl := (List.cons.inj hw).1
    refine ⟨sf ++ v, htail, ?_⟩
    rw [hbehind]
    by_cases hall : sf.all isSpace
    · -- white space: the next line has the say
      have hblank : strtol sf = 0 := by
        rw [← List.append_nil sf, strtol_append_of_isSpace hall]
        rfl
      rw [strtol_append_of_isSpace hall, hblank]
      simp [hall]
    · -- the newline ends the number
      have hspace : ∀ c ∈ v.head?, isDigit c = false := by
        intro c hc
        rw [hv] at hc
        obtain rfl := Option.some.inj hc
        rfl
      rw [strtol_append_of_not_isSpace hall hspace]
      exact iff_of_true Iff.rfl fun h => absurd h hall

/-- The topic of a cancellation, with what follows the line. -/
theorem exists_topicToken {pre post : List Line} {l : Line} {command topic : Bytes}
    (hwords : wordsOf l.text = [command, topic])
    (h : (wordsOf (contentOf pre ++ (l.text ++ behind post))).length = 2) :
    ∃ topic', (wordsOf (contentOf pre ++ (l.text ++ behind post))).tail = [topic'] ∧
      (topicField (topic'.take 50) = topicField (topic.take 50) ↔
        post = [] ∨ 50 ≤ topic.length) := by
  rcases tail_wordsOf (by rw [h, hwords]; rfl) with ⟨rfl, htail⟩ |
    ⟨ws, w, v, hpost, hv, -, hline, htail⟩
  · exact ⟨topic, by rw [htail, hwords]; rfl, iff_of_true rfl (Or.inl rfl)⟩
  · have hsplit : [command] ++ [topic] = ws ++ [w] := hwords.symm.trans hline
    obtain ⟨rfl, hw⟩ := List.append_inj' hsplit rfl
    obtain rfl := (List.cons.inj hw).1
    refine ⟨topic ++ v, htail, ?_⟩
    rw [or_iff_right hpost]
    constructor
    · -- the byte behind a short topic is a newline, or a zero
      intro heq
      by_contra hshort
      have hlt : topic.length < 50 := not_le.mp hshort
      have hbyte := congrArg (fun field : Vector UInt8 50 => field[topic.length]) heq
      obtain ⟨rest, rfl⟩ : ∃ rest, v = newline :: rest := by
        obtain ⟨c, rest, rfl⟩ := List.exists_cons_of_ne_nil (l := v) (by rintro rfl; cases hv)
        exact ⟨rest, by rw [Option.some.inj hv]⟩
      simp [topicField, List.getD_eq_getElem?_getD, newline] at hbyte
    · intro hlong
      rw [List.take_append_of_le_length hlong]

/-- **A read of several lines** is taken for one of them. -/
theorem commandSent_eq_iff {pre post : List Line} {l : Line} {m : FromTcp}
    (hm : request l = some m) :
    commandSent (contentOf pre ++ (l.text ++ behind post)) = [m] ↔ Heard pre l post := by
  rw [commandSent_eq_singleton_iff]
  unfold Heard
  rcases request_cases hm with ⟨topic, sf, hwords, rfl⟩ | ⟨topic, hwords, rfl⟩
  · have htypes : subscribeType ≠ unsubscribeType := by decide
    have hflag : ∀ p q : Prop, [Decidable p] → [Decidable q] →
        ((if p then (1 : UInt8) else 0) = (if q then 1 else 0) ↔ (q ↔ p)) := by
      intro p q _ _
      by_cases hp : p <;> by_cases hq : q <;> simp [hp, hq]
    simp only [hwords, FromTcp.mk.injEq, htypes, false_and, and_false, exists_false, or_false]
    constructor
    · rintro ⟨hsub, topic', sf', htail, -, -, hsf⟩
      have hlen : (wordsOf (contentOf pre ++ (l.text ++ behind post))).length = 3 :=
        length_eq_three_iff.mpr ⟨_, _, htail⟩
      obtain ⟨sf'', htail', hiff⟩ := exists_sfToken hwords hlen
      obtain ⟨rfl, rfl⟩ : topic' = topic ∧ sf' = sf'' := by
        simpa using htail.symm.trans htail'
      exact ⟨hlen, hsub, hiff.mp ((hflag _ _).mp hsf)⟩
    · rintro ⟨hlen, hsub, hcond⟩
      obtain ⟨sf', htail, hiff⟩ := exists_sfToken hwords hlen
      exact ⟨hsub, topic, sf', htail, trivial, rfl, (hflag _ _).mpr (hiff.mpr hcond)⟩
  · have htypes : unsubscribeType ≠ subscribeType := by decide
    simp only [hwords, FromTcp.mk.injEq, htypes, false_and, and_false, exists_false, false_or]
    constructor
    · rintro ⟨hunsub, topic', htail, -, hfield, -⟩
      have hlen : (wordsOf (contentOf pre ++ (l.text ++ behind post))).length = 2 :=
        length_eq_two_iff.mpr ⟨_, htail⟩
      obtain ⟨topic'', htail', hiff⟩ := exists_topicToken hwords hlen
      obtain rfl : topic' = topic'' := by
        simpa using htail.symm.trans htail'
      exact ⟨hlen, hunsub, hiff.mp hfield.symm⟩
    · rintro ⟨hlen, hunsub, hcond⟩
      obtain ⟨topic', htail, hiff⟩ := exists_topicToken hwords hlen
      exact ⟨hunsub, topic', htail, trivial, (hiff.mpr hcond).symm, trivial⟩

/-! ### One read -/

theorem requestsOf_append {pre : List Line} (h : ¬ HasExit pre) (post : List Line) :
    requestsOf (pre ++ post) = requestsOf pre ++ requestsOf post := by
  have hall : ∀ l ∈ pre, decide (¬ IsExit l) = true := fun l hl =>
    decide_eq_true fun hexit => h ⟨l, hl, hexit⟩
  have hself : pre.takeWhile (fun l => ¬ IsExit l) = pre := List.takeWhile_eq_self_iff.mpr hall
  rw [requestsOf, requestsOf, hself, List.takeWhile_append_of_pos hall, List.filterMap_append]
  rfl

/-- The word `exit` is no request. -/
theorem not_isExit_of_request {l : Line} {m : FromTcp} (h : request l = some m) : ¬ IsExit l := by
  intro hexit
  unfold IsExit at hexit
  rcases request_cases h with ⟨topic, sf, hwords, -⟩ | ⟨topic, hwords, -⟩
  · rw [hwords] at hexit
    cases hexit
  · rw [hwords] at hexit
    cases hexit

theorem requestsOf_cons {l : Line} {m : FromTcp} (h : request l = some m) (post : List Line) :
    requestsOf (l :: post) = m :: requestsOf post := by
  have hexit := not_isExit_of_request h
  rw [requestsOf, List.takeWhile_cons_of_pos (by simpa using hexit),
    List.filterMap_cons_some h]
  rfl

/-- The line with the first request. -/
theorem exists_of_requestsOf {lines : List Line} (h : requestsOf lines ≠ []) :
    ∃ pre l post m, lines = pre ++ l :: post ∧ ¬ HasExit pre ∧ requestsOf pre = [] ∧
      request l = some m := by
  induction lines with
  | nil => exact absurd rfl h
  | cons k lines ih =>
    by_cases hexit : IsExit k
    · refine absurd ?_ h
      rw [requestsOf, List.takeWhile_cons_of_neg (by simp [hexit]), List.filterMap_nil]
    have hsingle : ¬ HasExit [k] := by
      rintro ⟨l, hl, hl'⟩
      exact hexit (List.mem_singleton.mp hl ▸ hl')
    rcases hk : request k with - | m
    · -- the request is further behind
      have hnone : requestsOf [k] = [] := by
        rw [requestsOf, List.takeWhile_cons_of_pos (by simpa using hexit), List.takeWhile_nil,
          List.filterMap_cons_none hk, List.filterMap_nil]
      have hrest : requestsOf (k :: lines) = requestsOf lines := by
        rw [← List.singleton_append, requestsOf_append hsingle, hnone, List.nil_append]
      obtain ⟨pre, l, post, m, rfl, hpre, hreq, hl⟩ := ih (hrest ▸ h)
      refine ⟨k :: pre, l, post, m, rfl, ?_, ?_, hl⟩
      · rintro ⟨l', hl', hexit'⟩
        rcases List.mem_cons.mp hl' with rfl | hmem
        · exact hexit hexit'
        · exact hpre ⟨l', hmem, hexit'⟩
      · rw [← List.singleton_append, requestsOf_append hsingle, hnone, hreq]
        rfl
    · refine ⟨[], k, lines, m, rfl, ?_, rfl, hk⟩
      rintro ⟨l, hl, -⟩
      exact absurd hl List.not_mem_nil

/-- The read is taken for the one line in it that is a request, if there is one. -/
def Read.Answered (r : Read) : Prop :=
  (requestsOf r.lines = [] ∧ ¬ Taken r.text) ∨
    ∃ pre l post, r.lines = pre ++ l :: post ∧ ¬ HasExit pre ∧ requestsOf pre = [] ∧
      (request l).isSome ∧ requestsOf post = [] ∧ Heard pre l post

theorem commandSent_eq_requestsOf_iff (r : Read) :
    commandSent r.text = requestsOf r.lines ↔ r.Answered := by
  constructor
  · intro h
    by_cases hnil : requestsOf r.lines = []
    · rw [hnil, commandSent_eq_nil_iff] at h
      exact Or.inl ⟨hnil, h⟩
    · obtain ⟨pre, l, post, m, hlines, hpre, hreq, hm⟩ := exists_of_requestsOf hnil
      have hall : requestsOf r.lines = m :: requestsOf post := by
        rw [hlines, requestsOf_append hpre, hreq, requestsOf_cons hm]
        rfl
      -- no more than one message is sent
      have hpost : requestsOf post = [] := by
        have hle := length_commandSent_le r.text
        rw [h, hall, List.length_cons] at hle
        exact List.length_eq_zero_iff.mp (by omega)
      rw [hall, hpost, r.text_eq hlines, commandSent_eq_iff hm] at h
      exact Or.inr ⟨pre, l, post, hlines, hpre, hreq, hm ▸ rfl, hpost, h⟩
  · rintro (⟨hnil, htaken⟩ | ⟨pre, l, post, hlines, hpre, hreq, hsome, hpost, hheard⟩)
    · rw [hnil, commandSent_eq_nil_iff]
      exact htaken
    · obtain ⟨m, hm⟩ := Option.isSome_iff_exists.mp hsome
      rw [hlines, requestsOf_append hpre, hreq, requestsOf_cons hm, hpost, r.text_eq hlines]
      exact (commandSent_eq_iff hm).mpr hheard

/-! ### All reads -/

/-- What is asked of a read: while the subscriber is `reading`, and while a request is
`expected` of it, because no line has been `exit`. -/
def Read.Agrees (r : Read) : Bool → Bool → Prop
  | true, true => r.Answered
  | true, false => ¬ Taken r.text
  | false, true => requestsOf r.lines = []
  | false, false => True

/-- What is asked of all reads.  The subscriber stops where a read begins with `exit`, and
is to stop where a line is `exit`. -/
def Understood : Bool → Bool → List Read → Prop
  | _, _, [] => True
  | reading, expected, r :: rs => r.Agrees reading expected ∧
      Understood (reading && ¬ exitWord <+: r.text) (expected && ¬ HasExit r.lines) rs

/-- What is sent from a state on, and what is to be sent. -/
def sentFrom (reading : Bool) (beyond : Bytes) (reads : List Read) :
    Except Fault (List (List FromTcp)) :=
  if reading then stdinLoop beyond (reads.map Read.content) else .ok (reads.map fun _ => [])

def requestedFrom (expected : Bool) (reads : List Read) : List (List FromTcp) :=
  if expected then requested reads else reads.map fun _ => []

/-- A text that begins with `exit` is no other command. -/
theorem commandSent_of_exit {text : Bytes} (h : exitWord <+: text) : commandSent text = [] := by
  have hsub : ¬ subscribeWord <+: text := fun h' =>
    absurd (List.prefix_of_prefix_length_le h h' (by decide)) (by decide)
  have hunsub : ¬ unsubscribeWord <+: text := fun h' =>
    absurd (List.prefix_of_prefix_length_le h h' (by decide)) (by decide)
  rw [commandSent, if_neg hsub, if_neg hunsub]

theorem sentFrom_cons (reading : Bool) (beyond : Bytes) (r : Read) (rs : List Read) :
    sentFrom reading beyond (r :: rs) =
      (sentFrom (reading && ¬ exitWord <+: r.text) beyond rs).map fun later =>
        (if reading then commandSent r.text else []) :: later := by
  cases reading with
  | false => rfl
  | true =>
    rw [sentFrom, if_pos rfl, List.map_cons, stdinLoop, recvFromStdin_content]
    by_cases hexit : exitWord <+: r.text
    · rw [if_pos hexit]
      simp [hexit, sentFrom, commandSent_of_exit, Except.map, Function.comp_def]
    · rw [if_neg hexit]
      simp [hexit, sentFrom]

theorem requestedFrom_cons (expected : Bool) (r : Read) (rs : List Read) :
    requestedFrom expected (r :: rs) =
      (if expected then requestsOf r.lines else []) ::
        requestedFrom (expected && ¬ HasExit r.lines) rs := by
  cases expected with
  | false => rfl
  | true =>
    rw [requestedFrom, if_pos rfl, requested]
    by_cases hexit : HasExit r.lines
    · simp [hexit, requestedFrom]
    · simp [hexit, requestedFrom]

theorem agrees_iff (r : Read) (reading expected : Bool) :
    (if reading then commandSent r.text else []) =
      (if expected then requestsOf r.lines else []) ↔ r.Agrees reading expected := by
  cases reading with
  | true =>
    cases expected with
    | true => exact commandSent_eq_requestsOf_iff r
    | false => exact commandSent_eq_nil_iff
  | false =>
    cases expected with
    | true => exact eq_comm
    | false => exact iff_of_true rfl trivial

theorem sentFrom_eq_iff (beyond : Bytes) (reading expected : Bool) (reads : List Read) :
    sentFrom reading beyond reads = .ok (requestedFrom expected reads) ↔
      Understood reading expected reads := by
  induction reads generalizing reading expected with
  | nil =>
    refine iff_of_true ?_ trivial
    cases reading <;> cases expected <;> rfl
  | cons r rs ih =>
    have hcons : ∀ (x : Except Fault (List (List FromTcp))) (a b : List FromTcp) ys,
        (x.map fun later => a :: later) = .ok (b :: ys) ↔ a = b ∧ x = .ok ys := by
      intro x a b ys
      rcases x with fault | xs
      · simp [Except.map]
      · simp [Except.map]
    rw [sentFrom_cons, requestedFrom_cons, hcons, agrees_iff, ih]
    rfl

/-- **When the subscriber sends what the lines ask for**, whatever lines there are and
however they are delivered. -/
theorem stdinLoop_eq_requested_iff (beyond : Bytes) (reads : List Read) :
    stdinLoop beyond (reads.map Read.content) = .ok (requested reads) ↔
      Understood true true reads :=
  sentFrom_eq_iff beyond true true reads

/-- The lines `subscribe a 1` and `subscribe b 0`, delivered by one `read`. -/
def twoSubscriptions : Read where
  lines := [⟨ascii "subscribe a 1".toList, by decide, by decide⟩,
    ⟨ascii "subscribe b 0".toList, by decide, by decide⟩]
  ne_nil := by decide
  fits := by decide

/-- Neither is subscribed. -/
theorem not_requested_twoSubscriptions :
    stdinLoop [] ([twoSubscriptions].map Read.content) = .ok [[]] ∧
      stdinLoop [] ([twoSubscriptions].map Read.content) ≠ .ok (requested [twoSubscriptions]) := by
  decide +kernel

end TemePCom.PubSub
