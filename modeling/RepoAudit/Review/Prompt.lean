import RepoAudit.Aggregate
import RepoAudit.Decimal

/-!
# Prompts

* `Review.systemPrompt` — what the model is asked to do, and the form of its answer.
* `Review.userPrompt` — the findings of a review by file, each file with its text.
-/

namespace RepoAudit.Review

/-- The task and the form of the answer. -/
def systemPrompt : String :=
  "You are a security code reviewer. Your task is to analyze code files that have been " ++
  "flagged by security scanning tools and provide actionable remediation guidance.\n" ++
  "\n" ++
  "For each finding:\n" ++
  "1. Explain what the security issue is in plain language\n" ++
  "2. Explain why it's a problem (potential impact)\n" ++
  "3. Provide a concrete code fix with before/after examples\n" ++
  "4. Keep explanations concise and actionable\n" ++
  "\n" ++
  "Format your response as JSON:\n" ++
  "\x7b\n" ++
  "  \"findings\": [\n" ++
  "    \x7b\n" ++
  "      \"file_path\": \"path/to/file\",\n" ++
  "      \"line_number\": 42,\n" ++
  "      \"remediation\": \"Clear explanation of the fix\",\n" ++
  "      \"code_example\": \"// Before:\\n...\\n\\n// After:\\n...\"\n" ++
  "    \x7d\n" ++
  "  ]\n" ++
  "\x7d\n" ++
  "\n" ++
  "Focus on practical fixes. Do not invent new vulnerabilities - only address the specific " ++
  "issues flagged."

/-- The line of a finding in a prompt. -/
def findingLine (f : Finding) : String :=
  let line := if f.lineOrZero = 0 then "" else " (line " ++ Decimal.renderInt f.lineOrZero ++ ")"
  "- [" ++ f.severity.name ++ "] " ++ f.tool ++ line ++ ": " ++ f.description ++ "\n"

/-- The part of a prompt about one file. -/
def fileSection (path text : String) (fs : List Finding) : String :=
  "## File: " ++ path ++ "\n\n### Findings:\n" ++ String.join (fs.map findingLine) ++
    "\n### Code:\n```\n" ++ text ++ "\n```\n\n"

/-- The findings of files with known texts, file by file. -/
def userPrompt (fs : List Finding) (texts : List (String × String)) : String :=
  let known := fs.filter fun f => (texts.lookup f.filePath).isSome
  "Review these security findings and provide remediation:\n\n" ++
    String.join ((Finding.byFile known).map fun (path, group) =>
      fileSection path ((texts.lookup path).getD "") group)

end RepoAudit.Review
