import PackageConf.FileSystem.Tree
import PackageConf.Main
import PackageConf.Proofs.Line.Physical
import PackageConf.Proofs.Parse.Visits
import PackageConf.Proofs.Parse.Follow
import PackageConf.Proofs.Parse.Splicing
import PackageConf.Proofs.Token.NormalForm
import PackageConf.Proofs.Line.Grammar
import PackageConf.Proofs.Parse.FirstError
import PackageConf.Proofs.Parse.Reading
import PackageConf.Proofs.Config.Representable
import PackageConf.Proofs.Parse.Output
import PackageConf.Proofs.Config.Written
import PackageConf.Proofs.Parse.RoundTrip
import PackageConf.Proofs.Parse.Steps
import PackageConf.Proofs.Parse.Limit
import PackageConf.Proofs.Parse.Rereading
import PackageConf.Proofs.Parse.Concatenation
import PackageConf.Proofs.Parse.Layout
import PackageConf.Proofs.CommandLine.Dump
import PackageConf.Proofs.Reader.Frames
import PackageConf.Proofs.Reader.Delivery
import PackageConf.Proofs.SigLevel.Canon
import PackageConf.Proofs.SigLevel.LastWord
import PackageConf.Proofs.Engine.Registration
import PackageConf.Proofs.Server.Template
import PackageConf.Proofs.Engine.Activation
import PackageConf.Proofs.Parse.Decoding
import PackageConf.Proofs.Parse.Targets
import PackageConf.Proofs.Parse.Scope
import PackageConf.Proofs.Text.Legible
import PackageConf.Proofs.Engine.Summary
import PackageConf.Proofs.Load.Missing
import PackageConf.Proofs.Mask.Describe
import PackageConf.Proofs.Document.Json
import PackageConf.Proofs.Document.Toml
import PackageConf.Proofs.CommandLine.Formats
