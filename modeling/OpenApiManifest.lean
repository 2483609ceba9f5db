import OpenApiManifest.Main
import OpenApiManifest.Proofs.Reading.Fields
import OpenApiManifest.Proofs.Reading.Slots
import OpenApiManifest.Proofs.Reading.Positions
import OpenApiManifest.Proofs.Reading.Pointers
import OpenApiManifest.Proofs.Reading.Failures
import OpenApiManifest.Proofs.Reading.Loading
import OpenApiManifest.Proofs.References
import OpenApiManifest.Proofs.Trails
import OpenApiManifest.Proofs.Walk.Calls
import OpenApiManifest.Proofs.Walk.Collecting
import OpenApiManifest.Proofs.Walk.Roots
import OpenApiManifest.Proofs.Walk.Covering
import OpenApiManifest.Proofs.Walk.Reachability
import OpenApiManifest.Proofs.Runs
import OpenApiManifest.Proofs.Types.Mentions
import OpenApiManifest.Proofs.Types.Tracking
import OpenApiManifest.Proofs.Flattening
import OpenApiManifest.Proofs.Flattening.Expansion
import OpenApiManifest.Proofs.Flattening.Circles
import OpenApiManifest.Proofs.Types.Agreement
import OpenApiManifest.Proofs.Faultless
import OpenApiManifest.Proofs.Types.Faultless
import OpenApiManifest.Proofs.Walk.Safety
import OpenApiManifest.Proofs.Manifest.ChoiceMembers
import OpenApiManifest.Proofs.Manifest.Faultless
import OpenApiManifest.Proofs.Types.Emission
import OpenApiManifest.Proofs.Manifest.Mentioned
import OpenApiManifest.Proofs.Manifest.Tally
import OpenApiManifest.Proofs.Manifest.Versions
import OpenApiManifest.Proofs.Manifest.Growth
import OpenApiManifest.Proofs.Manifest.ChoiceEnding
import OpenApiManifest.Proofs.Manifest.Imports
import OpenApiManifest.Proofs.Sessions
import OpenApiManifest.Proofs.Walk.Filling
import OpenApiManifest.Proofs.Walk.Sequences
import OpenApiManifest.Proofs.Walk.Order
import OpenApiManifest.Proofs.Walk.Failures
import OpenApiManifest.Proofs.Writing.Keywords
import OpenApiManifest.Proofs.Writing.ReadingBack
import OpenApiManifest.Proofs.Writing.RoundTrip
import OpenApiManifest.Proofs.Types.Ending
import OpenApiManifest.Proofs.Manifest.MapValues
import OpenApiManifest.Proofs.Parameters
import OpenApiManifest.Proofs.Walk.Members
import OpenApiManifest.Proofs.Manifest.UnionParameters
import OpenApiManifest.Proofs.Types.Listing
import OpenApiManifest.Proofs.Manifest.Listing
import OpenApiManifest.Proofs.Types.Circles
import OpenApiManifest.Proofs.References.Chains
import OpenApiManifest.Proofs.References.Addresses
import OpenApiManifest.Proofs.Dependencies.Exploring
import OpenApiManifest.Proofs.Dependencies.ByteOrder
import OpenApiManifest.Proofs.Dependencies.Cycles
import OpenApiManifest.Proofs.Walk.Options
import OpenApiManifest.Proofs.Manifest.Grouping
import OpenApiManifest.Proofs.Manifest.Endpoints
import OpenApiManifest.Proofs.Manifest.Accepting
import OpenApiManifest.Proofs.Naming.Attributes
import OpenApiManifest.Proofs.Naming.Conversions
