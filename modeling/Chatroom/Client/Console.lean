import Chatroom.Client.AsyncClient

/-!
# The console of the client

The loop of `client_main` after the login. A line that begins with a backslash is a command, any other
goes to the server as it is. `\send` takes the uid of the recipient and one word; the words are split at
single blanks, so that two blanks in a row give an empty word, and an empty word at the end is dropped.

`cin.getline` reads into a buffer of 255 characters. A longer line makes it fail, and from then on every
call fails and leaves an empty buffer: the loop goes round without end and handles nothing more.
-/

namespace Chatroom.Console

open ByteSeq

/-! ## The program

The commands are texts of bytes. What the loop does with a line is a list of effects, of which the
last may end
it; the line after an overlong one is not read any more. -/

def space : UInt8 := 32
def backslash : UInt8 := 92

/-- `send` and `exit`. -/
def sendWord : List UInt8 := [115, 101, 110, 100]
def exitWord : List UInt8 := [101, 120, 105, 116]

/-- What a line makes the client do: `AsyncClient::Send`, a text on the screen, or the end of the loop. -/
inductive Effect where
  | send (tag : UInt32) (content : List UInt8)
  /-- `usage: send [whom by uid] [message]`, `Invalid UID: `, `Message sent to user with UID: `,
  `Unknown command: `, `bye` and `Connection closed`. -/
  | usage
  | invalidUid (arg : List UInt8)
  | messageSent (uid : UInt64)
  | unknownCommand (command : List UInt8)
  | bye
  | connectionClosed
  | leave
  deriving DecidableEq, Repr

/-- The loop that splits the arguments, on what is left of `arg_str` from `start` on. -/
def splitArgs (argStr : List UInt8) : List (List UInt8) :=
  match h : find argStr space 0 with
  | some stop => argStr.take stop :: splitArgs (argStr.drop (stop + 1))
  | none => if argStr = [] then [] else [argStr]
termination_by argStr.length
decreasing_by
  have hne : argStr ≠ [] := by
    rintro rfl
    cases h
  have hpos := List.length_pos_of_ne_nil hne
  rw [List.length_drop]
  omega

/-- The command without its backslash, and its arguments. -/
def commandLine (inp : List UInt8) : List UInt8 × List (List UInt8) :=
  match find inp space 0 with
  | some sep => ((inp.take sep).drop 1, splitArgs (inp.drop (sep + 1)))
  | none => (inp.drop 1, [])

/-- `msg_data`: room for the uid and the text, into which both are written. -/
def msgData (host : ByteOrder) (uid : UInt64) (text : List UInt8) : List UInt8 :=
  splice (writeNetField64 host (List.replicate (text.length + 8) 0) 0 uid) 8 text

def handleSend (host : ByteOrder) : List (List UInt8) → List Effect
  | [whom, text] =>
    match stoull whom with
    | .error _ => [.invalidUid whom]
    | .ok uid => [.send TagType.chatMsg.val (msgData host uid text), .messageSent uid]
  | _ => [.usage]

/-- What the loop does with what is in the buffer. -/
def handleLine (host : ByteOrder) (inp : List UInt8) : List Effect :=
  if inp.head? = some backslash then
    let (command, args) := commandLine inp
    if command = sendWord then handleSend host args
    else if command = exitWord then [.bye, .leave]
    else [.unknownCommand command]
  else [.send TagType.debug.val inp]

/-- The characters that `getline` stores, up to the first NUL. -/
def buffer (line : List UInt8) : List UInt8 := (line.take 254).takeWhile (· ≠ 0)

/-- A line of the input, and whether the client is running when the line has been read. -/
structure Line where
  text : List UInt8
  running : Bool
  deriving DecidableEq, Repr

/-- What is done with one line. -/
def Line.effects (host : ByteOrder) (line : Line) : List Effect :=
  if buffer line.text = [] then []
  else if line.running then handleLine host (buffer line.text)
  else [.connectionClosed, .leave]

/-- The loop goes on behind a line. -/
def Line.Passes (host : ByteOrder) (line : Line) : Prop :=
  .leave ∉ line.effects host ∧ line.text.length ≤ 254

instance (host : ByteOrder) (line : Line) : Decidable (line.Passes host) :=
  inferInstanceAs (Decidable (_ ∧ _))

/-- The loop, on the lines of the input. -/
def console (host : ByteOrder) : List Line → List Effect
  | [] => []
  | line :: lines =>
    if line.Passes host then line.effects host ++ console host lines else line.effects host

/-! ## The words of a line

`splitArgs` goes by the blanks: each blank ends a word, and what is behind the last blank is a word if
it is not
empty. The lemmas turn this around and say of which texts the words are. -/

variable {host : ByteOrder} {s inp a b : List UInt8}

theorem splitArgs_of_notMem (h : space ∉ s) : splitArgs s = if s = [] then [] else [s] := by
  rw [splitArgs]
  split
  · next stop hstop =>
    rw [find_eq_none h] at hstop
    cases hstop
  · rfl

/-- A blank ends a word. -/
theorem splitArgs_append (h : space ∉ a) (rest : List UInt8) :
    splitArgs (a ++ space :: rest) = a :: splitArgs rest := by
  have hfind := find_append h rest
  rw [splitArgs]
  split
  · next stop hstop =>
    rw [hfind] at hstop
    cases hstop
    rw [List.take_left, ← List.drop_drop, List.drop_left]
    rfl
  · next hnone =>
    rw [hfind] at hnone
    cases hnone

/-- A text has no blank, or it is what comes before the first one and what comes behind. -/
theorem blank_cases (s : List UInt8) :
    space ∉ s ∨ ∃ a rest, s = a ++ space :: rest ∧ space ∉ a := by
  by_cases hmem : space ∈ s
  · obtain ⟨a, rest, rfl, ha⟩ := List.eq_append_cons_of_mem hmem
    exact .inr ⟨a, rest, rfl, ha⟩
  · exact .inl hmem

theorem splitArgs_eq_nil_iff : splitArgs s = [] ↔ s = [] := by
  rcases blank_cases s with hs | ⟨a, rest, rfl, ha⟩
  · rw [splitArgs_of_notMem hs]
    split
    · next hnil => exact iff_of_true rfl hnil
    · next hne => exact iff_of_false (List.cons_ne_nil s []) hne
  · rw [splitArgs_append ha]
    exact iff_of_false (List.cons_ne_nil _ _) (List.append_ne_nil_of_right_ne_nil _ (List.cons_ne_nil _ _))

/-- A blank may end the words; an empty word at the end needs it. -/
def Ends (text tail : List UInt8) : Prop := tail = [] ∧ text ≠ [] ∨ tail = [space]

/-- One word, perhaps with a blank behind it. -/
theorem splitArgs_singleton {tail : List UInt8} (hb : space ∉ b) (htail : Ends b tail) :
    splitArgs (b ++ tail) = [b] := by
  rcases htail with ⟨rfl, hne⟩ | rfl
  · rw [List.append_nil, splitArgs_of_notMem hb, if_neg hne]
  · rw [splitArgs_append hb, splitArgs_eq_nil_iff.mpr rfl]

/-- And only such texts have one word. -/
theorem splitArgs_eq_singleton (h : splitArgs s = [b]) :
    space ∉ b ∧ ∃ tail, Ends b tail ∧ s = b ++ tail := by
  rcases blank_cases s with hs | ⟨a, rest, rfl, ha⟩
  · rw [splitArgs_of_notMem hs] at h
    split at h
    · cases h
    · next hne =>
      cases h
      exact ⟨hs, [], .inl ⟨rfl, hne⟩, (List.append_nil s).symm⟩
  · rw [splitArgs_append ha] at h
    obtain ⟨rfl, hrest⟩ := List.cons.inj h
    cases splitArgs_eq_nil_iff.mp hrest
    exact ⟨ha, [space], .inr rfl, rfl⟩

/-- **Two words**: what lies before the first blank, and one word behind it. -/
theorem splitArgs_eq_pair_iff : splitArgs s = [a, b] ↔ space ∉ a ∧ space ∉ b ∧
    ∃ tail, Ends b tail ∧ s = a ++ space :: (b ++ tail) := by
  constructor
  · intro h
    rcases blank_cases s with hs | ⟨a', rest, rfl, ha⟩
    · rw [splitArgs_of_notMem hs] at h
      split at h <;> cases h
    · rw [splitArgs_append ha] at h
      obtain ⟨rfl, hrest⟩ := List.cons.inj h
      obtain ⟨hb, tail, htail, rfl⟩ := splitArgs_eq_singleton hrest
      exact ⟨ha, hb, tail, htail, rfl⟩
  · rintro ⟨ha, hb, tail, htail, rfl⟩
    rw [splitArgs_append ha, splitArgs_singleton hb htail]

theorem commandLine_append (h : space ∉ a) (rest : List UInt8) :
    commandLine (a ++ space :: rest) = (a.drop 1, splitArgs rest) := by
  unfold commandLine
  rw [find_append h]
  dsimp only
  rw [List.take_left, ← List.drop_drop, List.drop_left]
  rfl

/-- The lines whose command is `\send` with two words. -/
theorem commandLine_eq_send_iff (hhead : inp.head? = some backslash) :
    commandLine inp = (sendWord, [a, b]) ↔
      ∃ rest, inp = backslash :: sendWord ++ space :: rest ∧ splitArgs rest = [a, b] := by
  constructor
  · intro h
    rcases blank_cases inp with hs | ⟨word, rest, rfl, hword⟩
    · unfold commandLine at h
      rw [find_eq_none hs] at h
      obtain ⟨-, hargs⟩ := Prod.mk.inj h
      cases hargs
    · rw [commandLine_append hword] at h
      obtain ⟨hcommand, hargs⟩ := Prod.mk.inj h
      cases word with
      | nil => cases hhead
      | cons c word =>
        cases hhead
        exact ⟨rest, by rw [← hcommand]; rfl, hargs⟩
  · rintro ⟨rest, rfl, hargs⟩
    rw [commandLine_append (by decide), hargs]
    rfl

/-! ## What a line sends

The uid is read by `stoull`, so it may have blanks of other kinds or a sign in front of it, and
anything behind it;
the text is one word. Both go into the message as they are, the uid as eight bytes. -/

/-- The two writes fill the room. -/
theorem msgData_eq (host : ByteOrder) (uid : UInt64) (text : List UInt8) :
    msgData host uid text = beBytes 8 uid.toNat ++ text := by
  have hroom : List.replicate (text.length + 8) (0 : UInt8) =
      List.replicate 8 0 ++ (List.replicate text.length 0 ++ []) := by
    rw [List.append_nil, ← List.replicate_add, Nat.add_comm]
  rw [msgData, writeNetField64_eq, hroom, splice_front (by simp), splice_part (by simp) (by simp),
    List.append_nil]

/-- A line that sends `text` to `uid`. -/
structure SendsTo (inp : List UInt8) (uid : UInt64) (text : List UInt8) : Prop where
  noBlank : space ∉ text
  shape : ∃ whom tail, space ∉ whom ∧ stoull whom = .ok uid ∧ Ends text tail ∧
    inp = backslash :: sendWord ++ space :: (whom ++ space :: (text ++ tail))

/-- `\send` sends with two words, of which the first is a number. -/
theorem mem_handleSend_iff {args : List (List UInt8)} {content : List UInt8} :
    .send TagType.chatMsg.val content ∈ handleSend host args ↔
      ∃ whom text uid, args = [whom, text] ∧ stoull whom = .ok uid ∧
        content = beBytes 8 uid.toNat ++ text := by
  unfold handleSend
  split
  · next whom text =>
    cases hwhom : stoull whom with
    | error e =>
      refine iff_of_false (by simp) ?_
      rintro ⟨whom', text', uid, hargs, hok, -⟩
      cases hargs
      rw [hwhom] at hok
      cases hok
    | ok uid =>
      dsimp only
      rw [msgData_eq]
      simp [hwhom]
  · next hnot =>
    refine iff_of_false (by simp) ?_
    rintro ⟨whom, text, uid, rfl, -, -⟩
    exact hnot whom text rfl

/-- The form of a line, by its command and its words. -/
theorem sendsTo_iff {uid : UInt64} {text : List UInt8} : SendsTo inp uid text ↔
    inp.head? = some backslash ∧ ∃ whom, commandLine inp = (sendWord, [whom, text]) ∧
      stoull whom = .ok uid := by
  constructor
  · rintro ⟨htext, whom, tail, hwhom, huid, htail, hinp⟩
    have hhead : inp.head? = some backslash := by
      rw [hinp]
      rfl
    have hargs := splitArgs_eq_pair_iff.mpr ⟨hwhom, htext, tail, htail, rfl⟩
    exact ⟨hhead, whom, (commandLine_eq_send_iff hhead).mpr ⟨_, hinp, hargs⟩, huid⟩
  · rintro ⟨hhead, whom, hline, huid⟩
    obtain ⟨rest, hinp, hargs⟩ := (commandLine_eq_send_iff hhead).mp hline
    obtain ⟨hwhom, htext, tail, htail, rfl⟩ := splitArgs_eq_pair_iff.mp hargs
    exact ⟨htext, whom, tail, hwhom, huid, htail, hinp⟩

/-- **The lines that send a chat message**, and to whom: exactly `\send`, a uid and one word. So a text
with a blank in it cannot be sent. -/
theorem mem_handleLine_iff {content : List UInt8} :
    .send TagType.chatMsg.val content ∈ handleLine host inp ↔
      ∃ uid text, SendsTo inp uid text ∧ content = beBytes 8 uid.toNat ++ text := by
  unfold handleLine
  simp only [sendsTo_iff]
  by_cases hhead : inp.head? = some backslash
  · rw [if_pos hhead]
    cases hline : commandLine inp with
    | mk command args =>
      dsimp only
      by_cases hcommand : command = sendWord
      · rw [if_pos hcommand, mem_handleSend_iff]
        constructor
        · rintro ⟨whom, text, uid, rfl, huid, hcontent⟩
          exact ⟨uid, text, ⟨hhead, whom, by rw [hcommand], huid⟩, hcontent⟩
        · rintro ⟨uid, text, ⟨-, whom, heq, huid⟩, hcontent⟩
          exact ⟨whom, text, uid, (Prod.mk.inj heq).2, huid, hcontent⟩
      · rw [if_neg hcommand]
        refine iff_of_false ?_ ?_
        · split <;> simp
        · rintro ⟨uid, text, ⟨-, whom, heq, -⟩, -⟩
          exact hcommand (Prod.mk.inj heq).1
  · rw [if_neg hhead]
    refine iff_of_false ?_ fun ⟨_, _, ⟨hyes, _⟩, _⟩ => hhead hyes
    intro hmem
    cases List.mem_singleton.mp hmem

/-- What the loop does, it does for a line that all lines before have let it come to. -/
theorem mem_console_iff {e : Effect} : ∀ {lines : List Line}, e ∈ console host lines ↔
    ∃ before line after, lines = before ++ line :: after ∧ (∀ x ∈ before, x.Passes host) ∧
      e ∈ line.effects host
  | [] => by
    refine iff_of_false List.not_mem_nil ?_
    rintro ⟨before, line, after, h, -, -⟩
    exact List.append_ne_nil_of_right_ne_nil before (List.cons_ne_nil line after) h.symm
  | first :: lines => by
    rw [console]
    constructor
    · intro h
      split at h
      · next hpass =>
        rcases List.mem_append.mp h with hfirst | hrest
        · exact ⟨[], first, lines, rfl, fun x hx => (by cases hx), hfirst⟩
        · obtain ⟨before, line, after, rfl, hbefore, he⟩ := mem_console_iff.mp hrest
          refine ⟨first :: before, line, after, rfl, fun x hx => ?_, he⟩
          rcases List.mem_cons.mp hx with rfl | hx
          · exact hpass
          · exact hbefore x hx
      · exact ⟨[], first, lines, rfl, fun x hx => (by cases hx), h⟩
    · rintro ⟨before, line, after, heq, hbefore, he⟩
      cases before with
      | nil =>
        cases heq
        split
        · exact List.mem_append_left _ he
        · exact he
      | cons x before =>
        cases heq
        have hrest := mem_console_iff.mpr ⟨before, line, after, rfl,
          fun y hy => hbefore y (List.mem_cons_of_mem _ hy), he⟩
        rw [if_pos (hbefore _ List.mem_cons_self)]
        exact List.mem_append_right _ hrest

/-- An empty line sends nothing, nor does a line after the connection is gone. -/
theorem mem_effects_iff {line : Line} {content : List UInt8} :
    .send TagType.chatMsg.val content ∈ line.effects host ↔ line.running = true ∧
      ∃ uid text, SendsTo (buffer line.text) uid text ∧ content = beBytes 8 uid.toNat ++ text := by
  have hline := @mem_handleLine_iff host (buffer line.text) content
  rw [← hline]
  unfold Line.effects
  split
  · next hnil =>
    rw [hnil]
    refine iff_of_false List.not_mem_nil fun ⟨_, hmem⟩ => ?_
    cases List.mem_singleton.mp hmem
  · split
    · next hrun => simp [hrun]
    · next hrun => simp [hrun]

/-- **What the user can send**: a chat message leaves the console exactly for a line in the form of
`SendsTo`, while the client runs, and behind lines none of which ended the loop or was longer than the
buffer. -/
theorem console_sends_iff (host : ByteOrder) (lines : List Line) (content : List UInt8) :
    .send TagType.chatMsg.val content ∈ console host lines ↔
      ∃ before line after, lines = before ++ line :: after ∧ (∀ x ∈ before, x.Passes host) ∧
        line.running = true ∧ ∃ uid text, SendsTo (buffer line.text) uid text ∧
          content = beBytes 8 uid.toNat ++ text := by
  rw [mem_console_iff]
  simp only [mem_effects_iff]

end Chatroom.Console
