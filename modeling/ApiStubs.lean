import ApiStubs.CommandLine
import ApiStubs.Main
import ApiStubs.Proofs.OrphanTheorems
import ApiStubs.Proofs.RenderMachineTheorems
import ApiStubs.Proofs.HierarchyTheorems
import ApiStubs.Proofs.ReferenceTheorems
import ApiStubs.Proofs.RenderVisits
import ApiStubs.Proofs.StubLayerTheorems
import ApiStubs.Proofs.StubVisitTheorems
import ApiStubs.Proofs.AttributionTheorems
import ApiStubs.Proofs.BracketText
import ApiStubs.Proofs.BracketTheorems
import ApiStubs.Proofs.TableTheorems
import ApiStubs.Proofs.EmbeddingTheorems
import ApiStubs.Proofs.VocabularyTheorems
import ApiStubs.Proofs.SurfaceEmbedding
import ApiStubs.Proofs.StubEmbedding
import ApiStubs.Proofs.EnlargementTheorems
import ApiStubs.Proofs.InputOrderTheorems
import ApiStubs.Proofs.ExtensionTheorems
import ApiStubs.Proofs.TableAccessTheorems
import ApiStubs.Proofs.ArtifactTheorems
import ApiStubs.Proofs.ReachabilityTheorems
import ApiStubs.Proofs.InheritanceTheorems
import ApiStubs.Proofs.FailureTheorems
import ApiStubs.Proofs.PathTheorems
import ApiStubs.Proofs.PlacementTheorems
import ApiStubs.Proofs.InputTheorems
import ApiStubs.Proofs.WrapperTheorems
import ApiStubs.Proofs.FenceTheorems
import ApiStubs.Proofs.RenderInduction
import ApiStubs.Proofs.CompositionTheorems
import ApiStubs.Proofs.FaultTheorems
import ApiStubs.Proofs.LeafTheorems
import ApiStubs.Proofs.CutTheorems
import ApiStubs.Proofs.SignatureTheorems
import ApiStubs.Proofs.ExtractionTheorems
import ApiStubs.Proofs.UsableNameTheorems
import ApiStubs.Proofs.OwnerTheorems
import ApiStubs.Proofs.LineTheorems
import ApiStubs.Proofs.GlobTheorems
import ApiStubs.Proofs.ExpansionTheorems
import ApiStubs.Proofs.SourcePathTheorems
import ApiStubs.Proofs.HeightTheorems
import ApiStubs.Proofs.MemberTheorems
import ApiStubs.Proofs.LayoutTheorems
import ApiStubs.Proofs.ChangeTheorems
import ApiStubs.Proofs.PresentationTheorems
