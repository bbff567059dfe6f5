import OpenCollab.Message
import OpenCollab.Text

/-!
# OpenCollab.Shaping.SummaryPrompt

The request a summarizing model is sent and how its answer is read
(`application/compaction_prompt.py`): the segment is replayed as it is, the
instruction follows as the last user message, and of the answer only the text
outside the `<analysis>` scratchpad counts.

The two tags are matched by hand, in the order of the regular expressions: the
first opening tag that is closed behind it, up to its first closing tag.
-/

namespace OpenCollab.Summary

/-! ## the instruction -/

/-- The summarizer receives the full segment: it needs no external reads. -/
def NO_TOOLS_PREAMBLE : String :=
  "CRITICAL: Respond with TEXT ONLY. Do NOT call any tools.\n" ++
  "\n" ++
  "- You already have all the context you need in the conversation above.\n" ++
  "- Tool calls will be REJECTED and will waste your only turn.\n" ++
  "- Your entire response must be plain text: an <analysis> block followed by a " ++
  "<summary> block.\n" ++
  "\n"

/-- The last words of the instruction. -/
def NO_TOOLS_TRAILER : String :=
  "\n" ++
  "\n" ++
  "REMINDER: text only — do NOT call any tools."

/-- The part of the prompt that asks for a scratchpad. -/
def ANALYSIS_INSTRUCTION : String :=
  "Before providing your final summary, wrap your analysis in <analysis> tags to " ++
  "organize your thoughts. In your analysis:\n" ++
  "\n" ++
  "1. Chronologically analyze each message. For each section identify:\n" ++
  "   - The user's (or teammate's) explicit requests and intents\n" ++
  "   - Your approach to addressing them\n" ++
  "   - Key decisions, technical concepts and code patterns\n" ++
  "   - Specific details: file names, full code snippets, function signatures, file " ++
  "edits\n" ++
  "   - Errors you ran into and how you fixed them\n" ++
  "   - Specific feedback, especially when told to do something differently.\n" ++
  "2. Double-check for technical accuracy and completeness."

/-- The nine-section compaction prompt. -/
def BASE_COMPACT_PROMPT : String :=
  "Your task is to create a detailed summary of the conversation so far, paying close " ++
  "attention to the explicit requests and your previous actions.\n" ++
  "This summary should be thorough in capturing technical details, code patterns, and " ++
  "architectural decisions essential for continuing work without losing context.\n" ++
  "\n" ++
  ANALYSIS_INSTRUCTION ++ "\n" ++
  "\n" ++
  "Your summary should include the following sections:\n" ++
  "\n" ++
  "1. Primary Request and Intent: Capture all of the explicit requests and intents in " ++
  "detail.\n" ++
  "2. Key Technical Concepts: List all important technical concepts, technologies, and " ++
  "frameworks discussed.\n" ++
  "3. Files and Code Sections: Enumerate specific files and code sections examined, " ++
  "modified, or created. Include full code snippets where applicable and why each file " ++
  "matters.\n" ++
  "4. Errors and fixes: List all errors you ran into and how you fixed them, plus any " ++
  "feedback received.\n" ++
  "5. Problem Solving: Document problems solved and ongoing troubleshooting.\n" ++
  "6. All user messages: List ALL user and teammate messages that are not tool " ++
  "results. These are critical for understanding feedback and changing intent.\n" ++
  "7. Pending Tasks: Outline any pending tasks you have explicitly been asked to work " ++
  "on.\n" ++
  "8. Current Work: Describe precisely what was being worked on immediately before " ++
  "this summary, with file names and code snippets.\n" ++
  "9. Optional Next Step: List the next step, DIRECTLY in line with the most recent " ++
  "explicit request. Include verbatim quotes from the most recent conversation showing " ++
  "exactly where you left off, to avoid drift.\n" ++
  "\n" ++
  "Structure your output as:\n" ++
  "\n" ++
  "<analysis>\n" ++
  "[Your thought process]\n" ++
  "</analysis>\n" ++
  "\n" ++
  "<summary>\n" ++
  "1. Primary Request and Intent:\n" ++
  "2. Key Technical Concepts:\n" ++
  "3. Files and Code Sections:\n" ++
  "4. Errors and fixes:\n" ++
  "5. Problem Solving:\n" ++
  "6. All user messages:\n" ++
  "7. Pending Tasks:\n" ++
  "8. Current Work:\n" ++
  "9. Optional Next Step:\n" ++
  "</summary>\n"

/-- The full instruction text handed to the summarizing model. -/
def getCompactPrompt (customInstructions : Option String) : String :=
  let prompt := NO_TOOLS_PREAMBLE ++ BASE_COMPACT_PROMPT
  let prompt := match customInstructions with
    | none => prompt
    | some text =>
        if isBlank text then prompt else prompt ++ "\n\nAdditional Instructions:\n" ++ text
  prompt ++ NO_TOOLS_TRAILER

/-- The message list sent to the model to summarize `segment`. -/
def buildSummaryRequest (segment : List Message) (customInstructions : Option String) :
    List Message :=
  segment ++ [Message.ofText .user (getCompactPrompt customInstructions)]

/-- Point to the archived evidence for details omitted from the handoff. -/
def transcriptRecoveryNote (transcriptPath : String) : String :=
  "Consult the archived session transcript when an exact command, code " ++
    "fragment, error, or earlier response is needed to complete the task. " ++
    "Transcript location: " ++ transcriptPath

/-! ## the answer -/

/-- What stands before the first `needle`, and what stands behind it. -/
def cutAt (needle : List Char) : List Char → Option (List Char × List Char)
  | [] => if needle.isEmpty then some ([], []) else none
  | c :: rest =>
      if needle.isPrefixOf (c :: rest) then some ([], (c :: rest).drop needle.length)
      else (cutAt needle rest).map fun found => (c :: found.1, found.2)

/-- The walk of `substitute`: a character that starts no closed pair of tags is
kept, a closed pair is replaced and the walk goes on behind it. -/
def substituteFrom (opening closing : List Char) (replace : List Char → List Char) :
    Nat → List Char → List Char
  | _, [] => []
  | 0, text => text
  | fuel + 1, c :: rest =>
      if opening.isPrefixOf (c :: rest) then
        match cutAt closing ((c :: rest).drop opening.length) with
        | some (body, after) =>
            replace body ++ substituteFrom opening closing replace fuel after
        | none => c :: substituteFrom opening closing replace fuel rest
      else c :: substituteFrom opening closing replace fuel rest

/-- `re.sub(opening([\s\S]*?)closing, replace, text)`.  Each step of the walk
consumes a character, so as many steps as characters are enough. -/
def substitute (opening closing : List Char) (replace : List Char → List Char)
    (text : List Char) : List Char :=
  substituteFrom opening closing replace text.length text

/-- `re.sub(r"\n\n+", "\n\n", text)`; `n` newlines stand right in front. -/
def collapseNewlines (n : Nat) : List Char → List Char
  | [] => []
  | c :: rest =>
      if c = '\n' then
        if 2 ≤ n then collapseNewlines n rest else c :: collapseNewlines (n + 1) rest
      else c :: collapseNewlines 0 rest

/-- What a `<summary>` block is replaced by. -/
def summaryBody (body : List Char) : List Char :=
  let text := strip (String.ofList body)
  if text = "" then [] else ("Summary:\n" ++ text).toList

/-- Unwrap `<summary>` and drop the `<analysis>` scratchpad; `""` when the model
produced no usable text. -/
def formatCompactSummary (raw : String) : String :=
  let out := substitute "<analysis>".toList "</analysis>".toList (fun _ => []) raw.toList
  let out := substitute "<summary>".toList "</summary>".toList summaryBody out
  strip (String.ofList (collapseNewlines 0 out))

example :
    formatCompactSummary "<analysis>a</analysis>\n<summary>\n b \n</summary>" = "Summary:\nb" := by
  decide +kernel

end OpenCollab.Summary
