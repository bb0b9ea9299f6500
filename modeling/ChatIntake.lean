import ChatIntake.Json.Document
import ChatIntake.Session
import ChatIntake.Settings.Load
import ChatIntake.Proofs.Listing
import ChatIntake.Proofs.Comparison
import ChatIntake.Proofs.Keyed
import ChatIntake.Proofs.Text.Lines
import ChatIntake.Proofs.Text.Rows
import ChatIntake.Proofs.Text.Utf8
import ChatIntake.Proofs.Json.Numeral
import ChatIntake.Proofs.Json.RoundTrip
import ChatIntake.Proofs.Json.Spacing
import ChatIntake.Proofs.Toml.Keys
import ChatIntake.Proofs.Toml.Quoted
import ChatIntake.Proofs.Toml.Lines
import ChatIntake.Proofs.Toml.Sections
import ChatIntake.Proofs.Toml.Numeral
import ChatIntake.Proofs.Toml.Values
import ChatIntake.Proofs.Toml.Trees
import ChatIntake.Proofs.Settings.Schema
import ChatIntake.Proofs.Settings.Load
import ChatIntake.Proofs.Settings.Written
import ChatIntake.Proofs.Content.Attachment
import ChatIntake.Proofs.Content.Canonical
import ChatIntake.Proofs.Content.Mime
import ChatIntake.Proofs.Content.Payload
import ChatIntake.Proofs.Content.Spelling
import ChatIntake.Proofs.Tool.Call
import ChatIntake.Proofs.Tool.Result
import ChatIntake.Proofs.Conversation.Guidance
import ChatIntake.Proofs.Intake.Contribution
import ChatIntake.Proofs.Intake.Dependence
import ChatIntake.Proofs.Intake.Batches
import ChatIntake.Proofs.Intake.Faults
import ChatIntake.Proofs.Intake.Retaking
import ChatIntake.Proofs.Intake.Values
import ChatIntake.Proofs.Intake.Presence
import ChatIntake.Proofs.Intake.Readers
import ChatIntake.Proofs.Intake.Encoding
import ChatIntake.Proofs.Intake.Interleaving
import ChatIntake.Proofs.Intake.Layout
import ChatIntake.Proofs.Intake.Instructions
import ChatIntake.Proofs.Intake.Spelling
import ChatIntake.Proofs.Intake.Configuration
import ChatIntake.Proofs.Content.Rewriting
import ChatIntake.Proofs.Content.Link
import ChatIntake.Proofs.Content.Substance
import ChatIntake.Proofs.Intake.Turns
import ChatIntake.Proofs.Intake.Answers
import ChatIntake.Proofs.Content.Source
import ChatIntake.Proofs.Conversation.Rejection
import ChatIntake.Proofs.Intake.Mimes
import ChatIntake.Proofs.Session
